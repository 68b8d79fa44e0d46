import LkHv.Klog.Log

/-!
# Runs of the kernel log, and recovery

* `klogSys`             calls on the logs that `klog_create` set up, and restarts that recover them;
* `KlogView`, `viewStep`   the unread bytes of each log, and what each call does to them;
* `KlogWhen`            the condition on a call;
* `RecoverInside`, `RecoverWhen`   `klog_recover` reads only what it accepted, and when;
* `klog_refines`        calls do what they do to the view, sums are right, and recovery reads inside;
* `klog_refines_fails`  not so for a read of a log that is not the current one.
-/

namespace LkHv.KernelLog
open ByteMemory

inductive KlogOp
  | puts (str : List UInt8)
  | putchar (c : UInt8)
  | setCurrentBuffer (buffer : Nat)
  | read (len : Nat) (bufId : Int)
  | restart

def klogStep (s : Klog) : KlogOp → Klog × KlogRet
  | .puts str => ((klogPutsLen s str).1, .code 0)
  | .putchar c => ((klogPutsLen s [c]).1, .code 0)
  | .setCurrentBuffer buffer =>
    ((klogSetCurrentBuffer s.mem s.klog buffer).1, .code (klogSetCurrentBuffer s.mem s.klog buffer).2)
  | .read len bufId => klogRead s len bufId
  | .restart =>
    match (klogRecover s.mem).1 with
    | some s' => (s', .code 0)
    | none => (s, .code ERR_NOT_FOUND)

/-- any sequence of calls on the logs of `s₀` -/
def klogSys (s₀ : Klog) : Machine Klog KlogOp where
  init s := s = s₀
  step s op s' := s' = (klogStep s op).1

/-! ## the property -/

/-- the logs as their readers see them -/
@[ext] structure KlogView where
  count : Nat
  current : Nat
  size : Nat → Nat
  unread : Nat → List UInt8

def Klog.view (s : Klog) : KlogView where
  count := logCount s.mem
  current := currentLog s.mem
  size i := if i < logCount s.mem then logSize s.mem (findNthLog s.mem i) else 0
  unread i := if i < logCount s.mem then unread s.mem (findNthLog s.mem i) else []

namespace KlogView

def setUnread (v : KlogView) (i : Nat) (b : List UInt8) : KlogView :=
  { v with unread := Function.update v.unread i b }

/-- of what was unread and what is written the last `size - 1` bytes are unread -/
def put (v : KlogView) (str : List UInt8) : KlogView :=
  v.setUnread v.current (lastN (v.size v.current - 1) (v.unread v.current ++ str))

end KlogView

/-- what a call does to the view, and what it returns -/
def viewStep (v : KlogView) : KlogOp → KlogView × KlogRet
  | .puts str => (v.put (str.takeWhile (· ≠ 0)), .code 0)
  | .putchar c => (v.put ([c].takeWhile (· ≠ 0)), .code 0)
  | .setCurrentBuffer buffer =>
    if buffer ≥ v.count then (v, .code ERR_INVALID_ARGS) else ({ v with current := buffer }, .code 0)
  | .read len bufId =>
    let i := if bufId < 0 then v.current else bufId.toNat
    if i ≥ v.count then (v, .code ERR_INVALID_ARGS)
    else (v.setUnread i ((v.unread i).drop len), .data ((v.unread i).take len))
  | .restart => (v, .code 0)

/-- the sums of all logs are right -/
def KlogSums (s : Klog) : Prop := ∀ i < logCount s.mem,
  dataChecksum s.mem (findNthLog s.mem i) = getChecksumKlogData s.mem (findNthLog s.mem i)

/-- A memory whose header is accepted is read within the size that was accepted. -/
def RecoverInside (m : Memory) : Prop := headerOk m = true → ∀ r ∈ (klogRecover m).2, r.1 + r.2 ≤ totalSize m

/-! ## the conditions -/

/-- A read is of the current log, without an overflow of its tail, or of nothing; what is recovered is not larger than
`MAX_KLOG_SIZE`. -/
def KlogWhen (s : Klog) : KlogOp → Prop
  | .read len bufId =>
    if bufId < 0 ∨ bufId.toNat = currentLog s.mem then
      logTail s.mem s.klog + min len (unread s.mem s.klog).length < 2 ^ 32
    else bufId.toNat ≥ logCount s.mem ∨ len = 0 ∨ unread s.mem (findNthLog s.mem bufId.toNat) = []
  | .restart => totalSize s.mem ≤ MAX_KLOG_SIZE ∧
      ∀ i < logCount s.mem, logSize s.mem (findNthLog s.mem i) ≤ MAX_KLOG_SIZE
  | _ => True

/-- a log that recovery accepts -/
structure LogGood (m : Memory) (k : Nat) : Prop where
  magic : logMagic m k = KLOG_HEADER_MAGIC
  aligned : logSize m k % 4 = 0
  size : logSize m k ≤ MAX_KLOG_SIZE
  head : logHead m k < logSize m k
  tail : logTail m k < logSize m k
  sum : dataChecksum m k = 0 ∨ getChecksumKlogData m k = dataChecksum m k

/-- how much of a log is looked at -/
def lookedAt (m : Memory) (k : Nat) : Nat :=
  if logMagic m k ≠ KLOG_HEADER_MAGIC then 4
  else if logSize m k % 4 ≠ 0 ∨ logSize m k > MAX_KLOG_SIZE then 8
  else if logHead m k ≥ logSize m k then 12
  else if logTail m k ≥ logSize m k then 16
  else if dataChecksum m k ≠ 0 then 20 + logSize m k
  else 20

/-- The header, and each log with only good ones before it, lie within the accepted size as far as they are looked
at. -/
def RecoverWhen (m : Memory) : Prop := headerOk m = true → 20 ≤ totalSize m ∧
  ∀ i < logCount m, (∀ j < i, LogGood m (findNthLog m j)) → findNthLog m i + lookedAt m (findNthLog m i) ≤ totalSize m

/-! ## recovery -/

section
variable {m : Memory} {k : Nat}

theorem and_three (n : Nat) : n &&& 3 = n % 4 := Nat.and_two_pow_sub_one_eq_mod n 2

theorem recoverLog_iff : (recoverLog m k).1 = true ↔ LogGood m k := by
  unfold recoverLog
  rw [and_three]
  split
  · rename_i hm
    exact ⟨fun h => (by cases h), fun h => absurd h.magic hm⟩
  rename_i hm
  split
  · rename_i ha
    exact ⟨fun h => (by cases h), fun h => absurd h.aligned ha.2⟩
  rename_i ha
  split
  · rename_i hs
    exact ⟨fun h => (by cases h), fun h => absurd h.size (by lia)⟩
  rename_i hs
  split
  · rename_i hh
    exact ⟨fun h => (by cases h), fun h => absurd h.head (by lia)⟩
  rename_i hh
  split
  · rename_i ht
    exact ⟨fun h => (by cases h), fun h => absurd h.tail (by lia)⟩
  rename_i ht
  have hgood : (dataChecksum m k = 0 ∨ getChecksumKlogData m k = dataChecksum m k) ↔ LogGood m k :=
    ⟨fun h => ⟨not_not.mp hm, by lia, by lia, by lia, by lia, h⟩, fun h => h.sum⟩
  rw [← hgood]
  split
  · rename_i hc
    rw [decide_eq_true_eq]
    exact ⟨.inr, fun h => h.elim (fun h => absurd h hc) id⟩
  · rename_i hc
    exact iff_of_true rfl (.inl (not_not.mp hc))

/-- what is looked at of a log -/
theorem recoverLog_reads : (∀ r ∈ (recoverLog m k).2, r.1 + r.2 ≤ k + lookedAt m k) ∧
    ∃ r ∈ (recoverLog m k).2, r.1 + r.2 = k + lookedAt m k := by
  have hone : ∀ n, (∀ r ∈ [(k, n)], r.1 + r.2 ≤ k + n) ∧ ∃ r ∈ [(k, n)], r.1 + r.2 = k + n := fun n =>
    ⟨fun r hr => by rw [List.mem_singleton.mp hr], _, List.mem_singleton.mpr rfl, rfl⟩
  unfold recoverLog lookedAt
  rw [and_three]
  by_cases hm : logMagic m k ≠ KLOG_HEADER_MAGIC
  · rw [if_pos hm, if_pos hm]
    exact hone 4
  rw [if_neg hm, if_neg hm]
  by_cases ha : logSize m k % 4 ≠ 0
  · rw [if_pos ⟨by lia, ha⟩, if_pos (.inl ha)]
    exact hone 8
  rw [if_neg fun h => ha h.2]
  by_cases hs : logSize m k > MAX_KLOG_SIZE
  · rw [if_pos hs, if_pos (.inr hs)]
    exact hone 8
  rw [if_neg hs, if_neg (not_or.mpr ⟨ha, hs⟩)]
  by_cases hh : logHead m k ≥ logSize m k
  · rw [if_pos hh, if_pos hh]
    exact hone 12
  rw [if_neg hh, if_neg hh]
  by_cases ht : logTail m k ≥ logSize m k
  · rw [if_pos ht, if_pos ht]
    exact hone 16
  rw [if_neg ht, if_neg ht]
  by_cases hc : dataChecksum m k ≠ 0
  · rw [if_pos hc, if_pos hc]
    refine ⟨fun r hr => ?_, (k + 20, logSize m k), .tail _ (.head _), Nat.add_assoc ..⟩
    rcases List.mem_cons.mp hr with rfl | hr
    · show k + 20 ≤ _
      lia
    · rw [List.mem_singleton.mp hr]
      exact (Nat.add_assoc ..).le
  · rw [if_neg hc, if_neg hc]
    exact hone 20

theorem LogGood.lookedAt (h : LogGood m k) : 20 ≤ lookedAt m k := by
  have ha := h.aligned
  have hs := h.size
  have hh := h.head
  have ht := h.tail
  unfold KernelLog.lookedAt
  rw [if_neg (not_not.mpr h.magic), if_neg (by lia), if_neg (by lia), if_neg (by lia)]
  split <;> lia

/-- the walk over the logs from the `i`-th one on -/
theorem recoverLogs_spec (m : Memory) (n i : Nat) :
    ((recoverLogs m (findNthLog m i) n).1 = true ↔ ∀ j, i ≤ j → j < i + n → LogGood m (findNthLog m j)) ∧
      ∀ r, r ∈ (recoverLogs m (findNthLog m i) n).2 ↔ ∃ j, i ≤ j ∧ j < i + n ∧
        (∀ l, i ≤ l → l < j → LogGood m (findNthLog m l)) ∧ r ∈ (recoverLog m (findNthLog m j)).2 := by
  induction n generalizing i with
  | zero =>
    refine ⟨iff_of_true rfl fun j h1 h2 => by lia, fun r => iff_of_false List.not_mem_nil ?_⟩
    rintro ⟨j, h1, h2, -⟩
    lia
  | succ n ih =>
    obtain ⟨hok, hreads⟩ := ih (i + 1)
    have e : findNthLog m i + 20 + logSize m (findNthLog m i) = findNthLog m (i + 1) := rfl
    rw [recoverLogs]
    dsimp only
    rw [e]
    by_cases hg : LogGood m (findNthLog m i)
    · rw [if_pos (recoverLog_iff.mpr hg)]
      refine ⟨hok.trans ⟨fun h j h1 h2 => ?_, fun h j h1 h2 => h j (by lia) (by lia)⟩, fun r => ?_⟩
      · by_cases hj : j = i
        · rw [hj]
          exact hg
        · exact h j (by lia) (by lia)
      · rw [List.mem_append, hreads]
        constructor
        · rintro (hr | ⟨j, h1, h2, h3, hr⟩)
          · exact ⟨i, Nat.le_refl _, by lia, fun l h1 h2 => by lia, hr⟩
          · refine ⟨j, by lia, by lia, fun l hl1 hl2 => ?_, hr⟩
            by_cases hl : l = i
            · rw [hl]
              exact hg
            · exact h3 l (by lia) hl2
        · rintro ⟨j, h1, h2, h3, hr⟩
          by_cases hj : j = i
          · rw [hj] at hr
            exact .inl hr
          · exact .inr ⟨j, by lia, by lia, fun l hl1 hl2 => h3 l (by lia) hl2, hr⟩
    · have hno : ¬ (recoverLog m (findNthLog m i)).1 = true := fun h => hg (recoverLog_iff.mp h)
      rw [if_neg hno]
      refine ⟨iff_of_false hno fun h => hg (h i (Nat.le_refl _) (by lia)), fun r => ?_⟩
      constructor
      · exact fun hr => ⟨i, Nat.le_refl _, by lia, fun l h1 h2 => by lia, hr⟩
      · rintro ⟨j, h1, h2, h3, hr⟩
        by_cases hj : j = i
        · rw [hj] at hr
          exact hr
        · exact absurd (h3 i (Nat.le_refl _) (by lia)) hg

theorem headerOk_iff : headerOk m = true ↔ bufMagic m = KLOG_BUFFER_HEADER_MAGIC ∧
    getChecksumKlogBufferHeader m = headerCrc32 m ∧ totalSize m ≤ MAX_KLOG_SIZE ∧ currentLog m < logCount m := by
  unfold headerOk
  rw [decide_eq_true_eq]

theorem recover_inside_iff (m : Memory) : RecoverInside m ↔ RecoverWhen m := by
  refine forall_congr' fun hh => ?_
  obtain ⟨hok, hreads⟩ := recoverLogs_spec m (logCount m) 0
  have hcur := (headerOk_iff.mp hh).2.2.2
  have e : findNthLog m 0 = 20 := rfl
  rw [e] at hok hreads
  have hmem : ∀ r, r ∈ (klogRecover m).2 ↔ r = (0, 20) ∨ r ∈ (recoverLogs m 20 (logCount m)).2 ∨
      (recoverLogs m 20 (logCount m)).1 = true ∧ r ∈ findReads m (currentLog m) := by
    intro r
    unfold klogRecover
    rw [if_pos hh]
    dsimp only
    by_cases hr : (recoverLogs m 20 (logCount m)).1 = true
    · rw [if_pos hr]
      show r ∈ (0, 20) :: (recoverLogs m 20 (logCount m)).2 ++ findReads m (currentLog m) ↔ _
      rw [List.cons_append, List.mem_cons, List.mem_append]
      exact or_congr_right (or_congr_right ⟨fun h => ⟨hr, h⟩, fun h => h.2⟩)
    · rw [if_neg hr]
      show r ∈ (0, 20) :: (recoverLogs m 20 (logCount m)).2 ↔ _
      rw [List.mem_cons]
      exact or_congr_right ⟨.inl, fun h => h.elim id fun h => absurd h.1 hr⟩
  constructor
  · intro h
    refine ⟨h _ ((hmem _).mpr (.inl rfl)), fun i hi hgood => ?_⟩
    obtain ⟨r, hr, hstop⟩ := (recoverLog_reads (m := m) (k := findNthLog m i)).2
    rw [← hstop]
    exact h r ((hmem r).mpr (.inr (.inl ((hreads r).mpr
      ⟨i, Nat.zero_le _, by lia, fun l _ hl => hgood l hl, hr⟩))))
  · rintro ⟨h20, hlogs⟩ r hr
    rcases (hmem r).mp hr with rfl | hr | ⟨hall, hr⟩
    · exact h20
    · obtain ⟨j, -, h2, h3, hr⟩ := (hreads r).mp hr
      exact (recoverLog_reads.1 r hr).trans (hlogs j (by lia) fun l hl => h3 l (Nat.zero_le _) hl)
    · obtain ⟨i, hi, rfl⟩ := List.mem_map.mp hr
      have hi := List.mem_range.mp hi
      have hall' := hok.mp hall
      have hlog := hlogs i (by lia) fun l hl => hall' l (Nat.zero_le _) (by lia)
      have := (hall' i (Nat.zero_le _) (by lia)).lookedAt
      show findNthLog m i + 8 ≤ _
      lia

end

/-! ## the invariant -/

/-- where the `i`-th of logs of `B` bytes lies -/
def logAt (B i : Nat) : Nat := 20 + i * (20 + B)

structure KlogOk (count B : Nat) (s : Klog) : Prop where
  logs : logCount s.mem = count
  magic : bufMagic s.mem = KLOG_BUFFER_HEADER_MAGIC
  current : currentLog s.mem < count
  crc : getChecksumKlogBufferHeader s.mem = headerCrc32 s.mem
  shape : ∀ i < count, LogShape s.mem (logAt B i) B
  sum : ∀ i < count, dataChecksum s.mem (logAt B i) = getChecksumKlogData s.mem (logAt B i)
  klog : s.klog = logAt B (currentLog s.mem)

section
variable {s s' : Klog} {m m' : Memory} {count B i j c len : Nat}

theorem logAt_le (h : i < j) : logAt B i + 20 + B ≤ logAt B j := by
  have := Nat.mul_le_mul_right (20 + B) (show i + 1 ≤ j by omega)
  rw [Nat.add_mul, Nat.one_mul] at this
  unfold logAt
  omega

theorem findNthLog_eq (h : ∀ i < count, LogShape m (logAt B i) B) (hi : i ≤ count) : findNthLog m i = logAt B i := by
  induction i with
  | zero =>
    unfold logAt
    rw [Nat.zero_mul]
    rfl
  | succ i ih =>
    have hs := (h i (by lia)).size
    rw [findNthLog, ih (by lia), hs]
    unfold logAt
    rw [Nat.add_mul, Nat.one_mul]
    lia

/-- the view, given where the logs are -/
theorem KlogOk.view (h : KlogOk count B s) : s.view = ⟨count, currentLog s.mem, fun i => if i < count then B else 0,
    fun i => if i < count then unread s.mem (logAt B i) else []⟩ := by
  have hfind : ∀ i < count, findNthLog s.mem i = logAt B i := fun i hi => findNthLog_eq h.shape hi.le
  refine KlogView.ext h.logs rfl (funext fun i => ?_) (funext fun i => ?_)
  · show (if i < logCount s.mem then _ else _) = if i < count then B else 0
    rw [h.logs]
    split
    · rename_i hi
      rw [hfind i hi, (h.shape i hi).size]
    · rfl
  · show (if i < logCount s.mem then _ else _) = if i < count then unread s.mem (logAt B i) else []
    rw [h.logs]
    split
    · rename_i hi
      rw [hfind i hi]
    · rfl

/-- an edit of one log -/
theorem KlogOk.edit (h : KlogOk count B s) (hc : c < count) (hlow : SameOn s.mem m' 0 (logAt B c))
    (hhigh : ∀ hi, SameOn s.mem m' (logAt B c + 20 + B) hi) (hshape : LogShape m' (logAt B c) B)
    (hsum : dataChecksum m' (logAt B c) = getChecksumKlogData m' (logAt B c)) : KlogOk count B ⟨m', s.klog⟩ ∧
      (⟨m', s.klog⟩ : Klog).view = s.view.setUnread c (unread m' (logAt B c)) := by
  have hbase : 20 ≤ logAt B c := Nat.le_add_right _ _
  have hword : ∀ off, off + 4 ≤ 20 → u32At m' off = u32At s.mem off := fun off ho =>
    hlow.u32At (Nat.zero_le _) (by lia)
  -- the other logs stay
  have hother : ∀ i, i ≠ c → SameOn s.mem m' (logAt B i) (logAt B i + 20 + B) := by
    intro i hi
    rcases Nat.lt_or_gt_of_ne hi with hlt | hlt
    · exact hlow.mono (Nat.zero_le _) (logAt_le hlt)
    · exact (hhigh (logAt B i + 20 + B)).mono (logAt_le hlt) (Nat.le_refl _)
  have hhead : ∀ i, i ≠ c → SameOn s.mem m' (logAt B i) (logAt B i + 16) := fun i hi =>
    (hother i hi).mono (Nat.le_refl _) (by lia)
  have hdata : ∀ i, i ≠ c → SameOn s.mem m' (logAt B i + 20) (logAt B i + 20 + B) := fun i hi =>
    (hother i hi).mono (by lia) (Nat.le_refl _)
  have hcur : currentLog m' = currentLog s.mem := hword 12 (by decide)
  have hok : KlogOk count B ⟨m', s.klog⟩ := by
    refine ⟨(hword 8 (by decide)).trans h.logs, (hword 0 (by decide)).trans h.magic,
      hcur.trans_lt h.current, ?_, fun i hi => ?_, fun i hi => ?_, ?_⟩
    · show getChecksumKlogBufferHeader m' = headerCrc32 m'
      have e : bytesAt m' 8 (20 - 8) = bytesAt s.mem 8 (20 - 8) := hlow.bytesAt (Nat.zero_le _) hbase
      unfold getChecksumKlogBufferHeader
      rw [e]
      exact h.crc.trans (hword 4 (by decide)).symm
    · by_cases e : i = c
      · rw [e]
        exact hshape
      · exact (h.shape i hi).congr (hhead i e)
    · by_cases e : i = c
      · rw [e]
        exact hsum
      · show dataChecksum m' _ = getChecksumKlogData m' _
        rw [checksum_congr (h.shape i hi) (hhead i e) (hdata i e), ← h.sum i hi]
        exact (hother i e).u32At (by lia) (by lia)
    · show s.klog = logAt B (currentLog m')
      rw [hcur]
      exact h.klog
  refine ⟨hok, ?_⟩
  rw [hok.view, h.view]
  refine KlogView.ext rfl hcur rfl (funext fun i => ?_)
  show (if i < count then unread m' (logAt B i) else []) =
    Function.update (fun i => if i < count then unread s.mem (logAt B i) else []) c (unread m' (logAt B c)) i
  by_cases e : i = c
  · rw [e, Function.update_self, if_pos hc]
  · rw [Function.update_of_ne e]
    split
    · rename_i hi
      rw [unread_congr (h.shape i hi) (hhead i e) (hdata i e)]
    · rfl

/-! ## the calls -/

/-- what each call has to do -/
def Refines (count B : Nat) (s : Klog) (op : KlogOp) : Prop :=
  KlogOk count B (klogStep s op).1 ∧ ((klogStep s op).1.view, (klogStep s op).2) = viewStep s.view op

theorem puts_refines (h : KlogOk count B s) (hB : B < 2 ^ 32) (str : List UInt8) :
    KlogOk count B (klogPutsLen s str).1 ∧ (klogPutsLen s str).1.view = s.view.put (str.takeWhile (· ≠ 0)) := by
  have hc := h.current
  have hshape := h.shape _ hc
  have hsum := h.sum _ hc
  rw [← h.klog] at hshape hsum
  obtain ⟨hk, hshape', hlow, hhigh, hsum', hun⟩ := klogPutsLen_spec hshape hB hsum str
  rw [h.klog] at hshape' hlow hhigh hsum'
  obtain ⟨hok, hview⟩ := h.edit hc hlow hhigh hshape' hsum'
  have e : (klogPutsLen s str).1 = ⟨(klogPutsLen s str).1.mem, s.klog⟩ := rfl
  rw [e]
  refine ⟨hok, hview.trans ?_⟩
  rw [← h.klog, hun, h.view]
  unfold KlogView.put
  dsimp only
  rw [if_pos hc, if_pos hc, h.klog]

/-- an edit of the header before the logs -/
theorem KlogOk.header (h : KlogOk count B s) (hs : ∀ hi, SameOn s.mem m' 20 hi) (hlogs : logCount m' = logCount s.mem)
    (hmagic : bufMagic m' = bufMagic s.mem) (hcur : currentLog m' < count)
    (hcrc : getChecksumKlogBufferHeader m' = headerCrc32 m') : KlogOk count B ⟨m', logAt B (currentLog m')⟩ ∧
      (⟨m', logAt B (currentLog m')⟩ : Klog).view = { s.view with current := currentLog m' } := by
  have hhead : ∀ i, SameOn s.mem m' (logAt B i) (logAt B i + 16) := fun i =>
    (hs _).mono (Nat.le_add_right _ _) (Nat.le_refl _)
  have hdata : ∀ i, SameOn s.mem m' (logAt B i + 20) (logAt B i + 20 + B) := fun i =>
    (hs _).mono (Nat.le_add_left _ _) (Nat.le_refl _)
  have hok : KlogOk count B ⟨m', logAt B (currentLog m')⟩ := by
    refine ⟨hlogs.trans h.logs, hmagic.trans h.magic, hcur, hcrc, fun i hi => (h.shape i hi).congr (hhead i),
      fun i hi => ?_, rfl⟩
    show dataChecksum m' _ = getChecksumKlogData m' _
    rw [checksum_congr (h.shape i hi) (hhead i) (hdata i), ← h.sum i hi]
    exact (hs (logAt B i + 16 + 4)).u32At (show 20 ≤ logAt B i + 16 by unfold logAt; omega) (Nat.le_refl _)
  refine ⟨hok, ?_⟩
  rw [hok.view, h.view]
  refine KlogView.ext rfl rfl rfl (funext fun i => ?_)
  show (if i < count then unread m' (logAt B i) else []) = if i < count then _ else _
  split
  · rename_i hi
    rw [unread_congr (h.shape i hi) (hhead i) (hdata i)]
  · rfl

theorem setCurrentBuffer_refines (h : KlogOk count B s) (hcount : count < 2 ^ 32) (buffer : Nat) :
    Refines count B s (.setCurrentBuffer buffer) := by
  unfold Refines klogStep viewStep klogSetCurrentBuffer
  dsimp only
  by_cases hb : buffer ≥ logCount s.mem
  · rw [if_pos hb, if_pos (show buffer ≥ s.view.count from hb)]
    exact ⟨h, rfl⟩
  have hlt : buffer < count := by
    have := h.logs
    lia
  have hfind := findNthLog_eq h.shape hlt.le
  rw [if_neg hb, if_neg (show ¬ buffer ≥ s.view.count from hb)]
  by_cases hc : buffer ≠ currentLog s.mem
  · rw [if_pos hc, hfind]
    -- the number of the log and the checksum are written
    obtain ⟨m1, hm1⟩ : ∃ m1, m1 = put32 s.mem 12 buffer := ⟨_, rfl⟩
    obtain ⟨m2, hm2⟩ : ∃ m2, m2 = checksumKlogBufferHeader m1 := ⟨_, rfl⟩
    have hs1 : ∀ lo hi, hi ≤ 12 ∨ 16 ≤ lo → SameOn s.mem m1 lo hi := fun lo hi hd => by
      rw [hm1]
      exact SameOn.put32 _ _ (by lia)
    have hs2 : ∀ lo hi, hi ≤ 4 ∨ 8 ≤ lo → SameOn m1 m2 lo hi := fun lo hi hd => by
      rw [hm2]
      exact SameOn.put32 _ _ (by lia)
    have hcur : currentLog m2 = buffer := by
      rw [currentLog, (hs2 12 16 (.inr (by decide))).u32At (Nat.le_refl _) (Nat.le_refl _), hm1]
      exact u32At_put32 _ _ (by lia)
    have hcrc : getChecksumKlogBufferHeader m2 = headerCrc32 m2 := by
      have e : headerCrc32 m2 = getChecksumKlogBufferHeader m1 := by
        rw [hm2]
        exact u32At_put32 _ _ (Nat.mod_lt _ (by decide))
      rw [e]
      unfold getChecksumKlogBufferHeader
      rw [(hs2 8 20 (.inr (by decide))).bytesAt (Nat.le_refl _) (by decide)]
    have hlogs : logCount m2 = logCount s.mem :=
      ((hs1 8 12 (.inl (by decide))).trans (hs2 8 12 (.inr (by decide)))).u32At (Nat.le_refl _) (Nat.le_refl _)
    have hmagic : bufMagic m2 = bufMagic s.mem :=
      ((hs1 0 4 (.inl (by decide))).trans (hs2 0 4 (.inl (by decide)))).u32At (Nat.le_refl _) (Nat.le_refl _)
    obtain ⟨hok, hview⟩ := h.header (fun hi => (hs1 _ _ (.inr (by decide))).trans (hs2 _ _ (.inr (by decide))))
      hlogs hmagic (by rw [hcur]; exact hlt) hcrc
    rw [hcur] at hok hview
    rw [← hm1, ← hm2]
    exact ⟨hok, by rw [hview]⟩
  · have e : buffer = currentLog s.mem := not_not.mp hc
    have hsame : (⟨s.mem, logAt B buffer⟩ : Klog) = s := by
      rw [e, ← h.klog]
    rw [if_neg hc, hfind, hsame]
    refine ⟨h, ?_⟩
    show (s.view, _) = ({ s.view with current := buffer }, _)
    rw [e]
    rfl

/-- the log of a buffer number -/
theorem KlogOk.target (h : KlogOk count B s) {bufId : Int} (hb : ¬ (bufId ≥ 0 ∧ bufId.toNat ≥ logCount s.mem)) :
    (if bufId < 0 then currentLog s.mem else bufId.toNat) < count ∧
      (if bufId < 0 then s.klog else findNthLog s.mem bufId.toNat) =
        logAt B (if bufId < 0 then currentLog s.mem else bufId.toNat) := by
  by_cases hneg : bufId < 0
  · rw [if_pos hneg, if_pos hneg]
    exact ⟨h.current, h.klog⟩
  · have hlt : bufId.toNat < count := by
      have := h.logs
      omega
    rw [if_neg hneg, if_neg hneg]
    exact ⟨hlt, findNthLog_eq h.shape hlt.le⟩

/-- a read of nothing -/
theorem setUnread_self (v : KlogView) (i len : Nat) (h : v.unread i = [] ∨ len = 0) :
    v.setUnread i ((v.unread i).drop len) = v ∧ (v.unread i).take len = [] := by
  have e : (v.unread i).drop len = v.unread i ∧ (v.unread i).take len = [] := by
    rcases h with h | rfl
    · rw [h]
      exact ⟨List.drop_nil, List.take_nil⟩
    · exact ⟨List.drop_zero, List.take_zero⟩
  refine ⟨?_, e.2⟩
  unfold KlogView.setUnread
  rw [e.1, Function.update_eq_self]

/-- a read of the current log -/
theorem readRuns_current (h : KlogOk count B s) (hB : B < 2 ^ 32)
    (hover : logTail s.mem s.klog + min len (unread s.mem s.klog).length < 2 ^ 32) :
    KlogOk count B (readRuns s len (logRuns s.mem s.klog)).1 ∧ (readRuns s len (logRuns s.mem s.klog)).1.view =
        s.view.setUnread (currentLog s.mem) ((unread s.mem s.klog).drop len) ∧
      (readRuns s len (logRuns s.mem s.klog)).2 = .data ((unread s.mem s.klog).take len) := by
  have hc := h.current
  have hshape := h.shape _ hc
  have hsum := h.sum _ hc
  rw [← h.klog] at hshape hsum
  unfold readRuns
  split
  · rename_i hruns
    have hnil := (logRuns_nil hshape).mp hruns
    have hv : s.view.unread (currentLog s.mem) = [] := by
      rw [h.view, ← hnil, h.klog]
      exact if_pos hc
    have h1 := (setUnread_self s.view (currentLog s.mem) len (.inl hv)).1
    rw [hv] at h1
    rw [hnil, h1]
    exact ⟨h, rfl, by rw [List.take_nil]⟩
  rename_i hruns
  rw [copyRuns_logRuns]
  dsimp only
  obtain ⟨a, ha⟩ : ∃ a, a = min len (unread s.mem s.klog).length := ⟨_, rfl⟩
  rw [← ha] at hover
  rw [List.length_take, ← ha, Nat.mod_eq_of_lt hover, hshape.size]
  have hlen := unread_length hshape
  have ha' : a ≤ unreadLen B (logHead s.mem s.klog) (logTail s.mem s.klog) := by lia
  obtain ⟨htail, hleft⟩ := unreadLen_read hshape.head hshape.tail ha'
  obtain ⟨t, ht⟩ : ∃ t, t = if logTail s.mem s.klog + a ≥ B then logTail s.mem s.klog + a - B
      else logTail s.mem s.klog + a := ⟨_, rfl⟩
  rw [← ht] at htail hleft ⊢
  have hs : ∀ lo hi, hi ≤ s.klog + 12 ∨ s.klog + 16 ≤ lo → SameOn s.mem (put32 s.mem (s.klog + 12) t) lo hi :=
    fun lo hi hd => SameOn.put32 _ _ (by lia)
  have hnew : logTail (put32 s.mem (s.klog + 12) t) s.klog = t := u32At_put32 _ _ (by lia)
  have hhead : logHead (put32 s.mem (s.klog + 12) t) s.klog = logHead s.mem s.klog :=
    (hs 0 (s.klog + 12) (.inl (Nat.le_refl _))).u32At (Nat.zero_le _) (by lia)
  have hlow := hs 0 (s.klog + 12) (.inl (Nat.le_refl _))
  have hshape' : LogShape (put32 s.mem (s.klog + 12) t) s.klog B :=
    ⟨(hlow.u32At (Nat.zero_le _) (by lia)).trans hshape.magic, (hlow.u32At (Nat.zero_le _) (by lia)).trans hshape.size,
      by rw [hhead]; exact hshape.head, by rw [hnew]; exact htail⟩
  have hsum' : dataChecksum (put32 s.mem (s.klog + 12) t) s.klog =
      getChecksumKlogData (put32 s.mem (s.klog + 12) t) s.klog := by
    have e : dataChecksum (put32 s.mem (s.klog + 12) t) s.klog = dataChecksum s.mem s.klog :=
      (hs (s.klog + 16) (s.klog + 20) (.inr (Nat.le_refl _))).u32At (Nat.le_refl _) (Nat.le_refl _)
    rw [e, hsum]
    unfold getChecksumKlogData
    rw [hshape'.size, hshape.size, (hs (s.klog + 20) (s.klog + 20 + B) (.inr (by lia))).bytesAt (Nat.le_refl _)
      (Nat.le_refl _)]
  -- the read bytes leave the ring
  have hun : unread (put32 s.mem (s.klog + 12) t) s.klog = (unread s.mem s.klog).drop len := by
    have hdrop : (unread s.mem s.klog).drop len = (unread s.mem s.klog).drop a := by
      rw [ha]
      rcases Nat.le_total len (unread s.mem s.klog).length with hle | hle
      · rw [Nat.min_eq_left hle]
      · rw [Nat.min_eq_right hle, List.drop_length, List.drop_eq_nil_of_le hle]
    have hring : (fun j => put32 s.mem (s.klog + 12) t (s.klog + 20 + j)) = fun j => s.mem (s.klog + 20 + j) :=
      funext fun j => hs (s.klog + 20 + j) (s.klog + 20 + j + 1) (.inr (by lia)) _ (Nat.le_refl _)
        (Nat.lt_succ_self _)
    have ht' : t = (logTail s.mem s.klog + a) % B := by
      have htl := hshape.tail
      have hhd := hshape.head
      rw [mod_turn (by unfold unreadLen at ha'; split at ha' <;> lia), ht]
      split <;> split <;> lia
    rw [hdrop, unread_window hshape', unread_window hshape, Ring.window_drop _ _ _ ha', hhead, hnew, hring, hleft, ht']
  obtain ⟨hok, hview⟩ := @KlogOk.edit s (put32 s.mem (s.klog + 12) t) count B _ h hc
    (by rw [← h.klog]; exact hlow.mono (Nat.le_refl _) (by lia))
    (fun hi => hs _ _ (.inr (by rw [← h.klog]; lia))) (by rw [← h.klog]; exact hshape')
    (by rw [← h.klog]; exact hsum')
  rw [← h.klog, hun] at hview
  exact ⟨hok, hview, rfl⟩

theorem read_refines (h : KlogOk count B s) (hB : B < 2 ^ 32) {bufId : Int}
    (hwhen : KlogWhen s (.read len bufId)) : Refines count B s (.read len bufId) := by
  have hlogs := h.logs
  have hcount : s.view.count = logCount s.mem := rfl
  have hcur : s.view.current = currentLog s.mem := rfl
  unfold Refines
  show KlogOk count B (klogRead s len bufId).1 ∧ ((klogRead s len bufId).1.view, (klogRead s len bufId).2) = _
  unfold viewStep klogRead klogGetBuffer
  dsimp only
  rw [hcount, hcur]
  by_cases hb : bufId ≥ 0 ∧ bufId.toNat ≥ logCount s.mem
  · rw [if_pos hb, if_pos (by rw [if_neg (by lia)]; exact hb.2)]
    exact ⟨h, rfl⟩
  obtain ⟨hlt, htarget⟩ := h.target hb
  obtain ⟨i, hi⟩ : ∃ i, i = if bufId < 0 then currentLog s.mem else bufId.toNat := ⟨_, rfl⟩
  rw [if_neg hb]
  dsimp only
  rw [htarget, ← hi]
  rw [← hi] at hlt
  rw [if_neg (show ¬ i ≥ logCount s.mem by lia)]
  have hunread : s.view.unread i = unread s.mem (logAt B i) := by
    rw [h.view]
    exact if_pos hlt
  by_cases hown : bufId < 0 ∨ bufId.toNat = currentLog s.mem
  · -- the current log
    have hic : i = currentLog s.mem := by
      rw [hi]
      split
      · rfl
      · exact hown.resolve_left ‹_›
    have hover : if bufId < 0 ∨ bufId.toNat = currentLog s.mem then
        logTail s.mem s.klog + min len (unread s.mem s.klog).length < 2 ^ 32
        else bufId.toNat ≥ logCount s.mem ∨ len = 0 ∨ unread s.mem (findNthLog s.mem bufId.toNat) = [] := hwhen
    rw [if_pos hown] at hover
    obtain ⟨hok, hview, hret⟩ := readRuns_current h hB hover
    rw [hunread, hic, ← h.klog, hview, hret]
    exact ⟨hok, rfl⟩
  · -- nothing is read of another one
    have hother : if bufId < 0 ∨ bufId.toNat = currentLog s.mem then
        logTail s.mem s.klog + min len (unread s.mem s.klog).length < 2 ^ 32
        else bufId.toNat ≥ logCount s.mem ∨ len = 0 ∨ unread s.mem (findNthLog s.mem bufId.toNat) = [] := hwhen
    rw [if_neg hown] at hother
    have hneg : ¬ bufId < 0 := fun hn => hown (.inl hn)
    rw [if_neg hneg] at hi
    have hfind : findNthLog s.mem i = logAt B i := findNthLog_eq h.shape hlt.le
    rw [← hi, hfind] at hother
    have hnothing : unread s.mem (logAt B i) = [] ∨ len = 0 := by
      rcases hother with hge | hz | hnil
      · lia
      · exact .inr hz
      · exact .inl hnil
    obtain ⟨h1, h2⟩ := setUnread_self s.view i len (by rw [hunread]; exact hnothing)
    have hsame : readRuns s len (logRuns s.mem (logAt B i)) = (s, .data []) := by
      unfold readRuns
      split
      · rfl
      rename_i hruns
      have hz : len = 0 := hnothing.resolve_left fun hnil => hruns ((logRuns_nil (h.shape i hlt)).mpr hnil)
      have htail := (h.shape _ h.current).tail
      have hsize := (h.shape _ h.current).size
      rw [← h.klog] at htail hsize
      rw [copyRuns_logRuns, hz, List.take_zero]
      dsimp only
      rw [List.length_nil, Nat.add_zero, Nat.mod_eq_of_lt (by lia), if_neg (by lia)]
      show ((⟨put32 s.mem (s.klog + 12) (u32At s.mem (s.klog + 12)), s.klog⟩ : Klog), _) = _
      rw [put32_u32At]
    rw [hsame, h1, h2]
    exact ⟨h, rfl⟩

theorem restart_refines (h : KlogOk count B s) (hB : B % 4 = 0) (hwhen : KlogWhen s .restart) :
    Refines count B s .restart := by
  obtain ⟨htotal, hsize⟩ := hwhen
  have hlogs := h.logs
  have hcur := h.current
  have hhead : headerOk s.mem = true := headerOk_iff.mpr ⟨h.magic, h.crc, htotal, by lia⟩
  have hgood : ∀ j, 0 ≤ j → j < 0 + logCount s.mem → LogGood s.mem (findNthLog s.mem j) := by
    intro j _ hj
    have hj' : j < count := by lia
    have hmax := hsize j (by lia)
    rw [findNthLog_eq h.shape hj'.le] at hmax ⊢
    have hshape := h.shape j hj'
    exact ⟨hshape.magic, by rw [hshape.size]; exact hB, hmax, by rw [hshape.size]; exact hshape.head,
      by rw [hshape.size]; exact hshape.tail, .inr (h.sum j hj').symm⟩
  have hwalk : (recoverLogs s.mem 20 (logCount s.mem)).1 = true :=
    (recoverLogs_spec s.mem (logCount s.mem) 0).1.mpr hgood
  have hset : (klogSetCurrentBuffer s.mem 0 (currentLog s.mem)).1 = s := by
    unfold klogSetCurrentBuffer
    rw [if_neg (by lia), if_neg (not_not.mpr rfl), findNthLog_eq h.shape hcur.le]
    show (⟨s.mem, _⟩ : Klog) = s
    rw [← h.klog]
  have hrec : (klogRecover s.mem).1 = some s := by
    unfold klogRecover
    rw [if_pos hhead]
    dsimp only
    rw [if_pos hwalk, hset]
  unfold Refines klogStep
  dsimp only
  rw [hrec]
  exact ⟨h, rfl⟩

theorem step_refines (h : KlogOk count B s) (hcount : count < 2 ^ 32) (hB : B < 2 ^ 32) (hB4 : B % 4 = 0)
    {op : KlogOp} (hwhen : KlogWhen s op) : Refines count B s op := by
  cases op with
  | puts str =>
    obtain ⟨hok, hview⟩ := puts_refines h hB str
    exact ⟨hok, congrArg (·, _) hview⟩
  | putchar c =>
    obtain ⟨hok, hview⟩ := puts_refines h hB [c]
    exact ⟨hok, congrArg (·, _) hview⟩
  | setCurrentBuffer buffer => exact setCurrentBuffer_refines h hcount buffer
  | read len bufId => exact read_refines h hB hwhen
  | restart => exact restart_refines h hB4 hwhen

end

/-! ## creation -/

section
variable {m : Memory} {B ptr : Nat}

theorem SameOn.clear {lo hi off len : Nat} (h : off + len ≤ lo ∨ hi ≤ off) : SameOn m (clear m off len) lo hi :=
  fun i h1 h2 => if_neg (by lia)

/-- a log that was set up -/
theorem createLog_spec (m : Memory) (ptr : Nat) (h0 : 0 < B) (hB : B < 2 ^ 32) :
    LogShape (createLog m ptr B) ptr B ∧ unread (createLog m ptr B) ptr = [] ∧
      dataChecksum (createLog m ptr B) ptr = getChecksumKlogData (createLog m ptr B) ptr ∧
      ∀ lo hi, hi ≤ ptr ∨ ptr + 20 + B ≤ lo → SameOn m (createLog m ptr B) lo hi := by
  obtain ⟨m1, hm1⟩ : ∃ m1, m1 = put32 m ptr KLOG_HEADER_MAGIC := ⟨_, rfl⟩
  obtain ⟨m2, hm2⟩ : ∃ m2, m2 = put32 m1 (ptr + 4) B := ⟨_, rfl⟩
  obtain ⟨m3, hm3⟩ : ∃ m3, m3 = put32 m2 (ptr + 8) 0 := ⟨_, rfl⟩
  obtain ⟨m4, hm4⟩ : ∃ m4, m4 = put32 m3 (ptr + 12) 0 := ⟨_, rfl⟩
  obtain ⟨m5, hm5⟩ : ∃ m5, m5 = put32 m4 (ptr + 16) 0 := ⟨_, rfl⟩
  obtain ⟨m6, hm6⟩ : ∃ m6, m6 = KernelLog.clear m5 (ptr + 20) B := ⟨_, rfl⟩
  have e : createLog m ptr B = put32 m6 (ptr + 16) (getChecksumKlogData m6 ptr) := by
    rw [hm6, hm5, hm4, hm3, hm2, hm1]
    rfl
  have hs6 : ∀ lo hi, hi ≤ ptr + 16 ∨ ptr + 20 ≤ lo → SameOn m6 (createLog m ptr B) lo hi := fun lo hi hd => by
    rw [e]
    exact SameOn.put32 _ _ (by lia)
  have hs5 : ptr + 20 + B ≤ 0 ∨ ptr + 16 ≤ ptr + 20 → SameOn m5 (KernelLog.clear m5 (ptr + 20) B) 0 (ptr + 16) :=
    SameOn.clear
  -- each field keeps what was written to it
  have hkeep : ∀ off, off + 4 ≤ ptr + 16 → u32At (createLog m ptr B) off = u32At m4 off := by
    intro off ho
    rw [(hs6 0 (ptr + 16) (.inl (Nat.le_refl _))).u32At (Nat.zero_le _) ho, hm6,
      (hs5 (.inr (by lia))).u32At (Nat.zero_le _) ho, hm5]
    exact u32At_put32_of_disjoint _ _ (by lia)
  have hmagic : logMagic (createLog m ptr B) ptr = KLOG_HEADER_MAGIC := by
    rw [logMagic, hkeep _ (by lia), hm4, u32At_put32_of_disjoint _ _ (by lia), hm3,
      u32At_put32_of_disjoint _ _ (by lia), hm2, u32At_put32_of_disjoint _ _ (by lia), hm1]
    exact u32At_put32 _ _ (by decide)
  have hsize : logSize (createLog m ptr B) ptr = B := by
    rw [logSize, hkeep _ (by lia), hm4, u32At_put32_of_disjoint _ _ (by lia), hm3,
      u32At_put32_of_disjoint _ _ (by lia), hm2]
    exact u32At_put32 _ _ hB
  have hhead : logHead (createLog m ptr B) ptr = 0 := by
    rw [logHead, hkeep _ (by lia), hm4, u32At_put32_of_disjoint _ _ (by lia), hm3]
    exact u32At_put32 _ _ (by decide)
  have htail : logTail (createLog m ptr B) ptr = 0 := by
    rw [logTail, hkeep _ (by lia), hm4]
    exact u32At_put32 _ _ (by decide)
  have hsize6 : logSize m6 ptr = B := by
    rw [← hsize]
    exact ((hs6 0 (ptr + 16) (.inl (Nat.le_refl _))).u32At (Nat.zero_le _) (by lia)).symm
  refine ⟨⟨hmagic, hsize, by rw [hhead]; exact h0, by rw [htail]; exact h0⟩, ?_, ?_, fun lo hi hd => ?_⟩
  · unfold unread
    rw [hhead, htail]
    rfl
  · have hnew : dataChecksum (createLog m ptr B) ptr = getChecksumKlogData m6 ptr := by
      rw [e]
      refine u32At_put32 _ _ ?_
      unfold getChecksumKlogData
      have := foldl_sum (bytesAt m6 (ptr + 20) (logSize m6 ptr)) 0
      rw [Nat.zero_mod] at this
      rw [this]
      exact Nat.mod_lt _ (by decide)
    rw [hnew]
    unfold getChecksumKlogData
    rw [hsize, hsize6, (hs6 (ptr + 20) (ptr + 20 + B) (.inr (Nat.le_refl _))).bytesAt (Nat.le_refl _) (Nat.le_refl _)]
  · refine SameOn.trans ?_ (hs6 lo hi (by lia))
    rw [hm6, hm5, hm4, hm3, hm2, hm1]
    exact ((((((SameOn.put32 _ _ (by lia)).trans (SameOn.put32 _ _ (by lia))).trans
      (SameOn.put32 _ _ (by lia))).trans (SameOn.put32 _ _ (by lia))).trans
      (SameOn.put32 _ _ (by lia))).trans (SameOn.clear (by lia)))

theorem createLogs_spec (m : Memory) (ptr n : Nat) (h0 : 0 < B) (hB : B < 2 ^ 32) :
    SameOn m (createLogs m ptr B n) 0 ptr ∧ ∀ i < n, LogShape (createLogs m ptr B n) (ptr + i * (20 + B)) B ∧
        unread (createLogs m ptr B n) (ptr + i * (20 + B)) = [] ∧
        dataChecksum (createLogs m ptr B n) (ptr + i * (20 + B)) =
          getChecksumKlogData (createLogs m ptr B n) (ptr + i * (20 + B)) := by
  induction n generalizing m ptr with
  | zero => exact ⟨.refl _ _ _, fun i hi => by lia⟩
  | succ n ih =>
    obtain ⟨hshape, hun, hsum, hout⟩ := createLog_spec m ptr h0 hB
    obtain ⟨hlow, hlogs⟩ := ih (createLog m ptr B) (ptr + 20 + B)
    rw [createLogs]
    refine ⟨(hout 0 ptr (.inl (Nat.le_refl _))).trans (hlow.mono (Nat.le_refl _) (by lia)), fun i hi => ?_⟩
    cases i with
    | zero =>
      have hhead : SameOn _ _ ptr (ptr + 16) := hlow.mono (Nat.zero_le _) (by lia)
      have hdata : SameOn _ _ (ptr + 20) (ptr + 20 + B) := hlow.mono (Nat.zero_le _) (Nat.le_refl _)
      rw [show ptr + 0 * (20 + B) = ptr by lia]
      refine ⟨hshape.congr hhead, (unread_congr hshape hhead hdata).trans hun, ?_⟩
      rw [checksum_congr hshape hhead hdata, ← hsum]
      exact hlow.u32At (Nat.zero_le _) (by lia)
    | succ i =>
      have := hlogs i (by lia)
      rwa [show ptr + (i + 1) * (20 + B) = ptr + 20 + B + i * (20 + B) by rw [Nat.add_mul, Nat.one_mul]; lia]

/-- the logs that `klog_create` sets up -/
theorem klogCreate_spec {len count : Nat} {s₀ : Klog} (hcount : count < 2 ^ 32) (hc : klogCreate m len count = some s₀)
    (hsize : createBufsize len count ≠ 0) : KlogOk count (createBufsize len count) s₀ ∧
      s₀.view = ⟨count, 0, fun i => if i < count then createBufsize len count else 0, fun _ => []⟩ := by
  have hB : createBufsize len count < 2 ^ 32 := by
    have h1 : (len - 20 - 20 * count) % 2 ^ 32 < 2 ^ 32 := Nat.mod_lt _ (by decide)
    have h2 := Nat.div_le_self ((len - 20 - 20 * count) % 2 ^ 32) count
    unfold createBufsize
    lia
  unfold klogCreate at hc
  split at hc
  · cases hc
  rename_i hpos
  split at hc
  · cases hc
  dsimp only at hc
  obtain ⟨m1, hm1⟩ : ∃ m1, m1 = put32 m 0 KLOG_BUFFER_HEADER_MAGIC := ⟨_, rfl⟩
  obtain ⟨m2, hm2⟩ : ∃ m2, m2 = put32 m1 8 count := ⟨_, rfl⟩
  obtain ⟨m3, hm3⟩ : ∃ m3, m3 = put32 m2 12 0 := ⟨_, rfl⟩
  obtain ⟨m4, hm4⟩ : ∃ m4, m4 = put32 m3 16 (len % 2 ^ 32) := ⟨_, rfl⟩
  obtain ⟨m5, hm5⟩ : ∃ m5, m5 = checksumKlogBufferHeader m4 := ⟨_, rfl⟩
  rw [← hm1, ← hm2, ← hm3, ← hm4, ← hm5] at hc
  obtain ⟨hlow, hlogs⟩ := createLogs_spec m5 20 count (Nat.pos_of_ne_zero hsize) hB
  obtain ⟨m6, hm6⟩ : ∃ m6, m6 = createLogs m5 20 (createBufsize len count) count := ⟨_, rfl⟩
  rw [← hm6] at hc hlow hlogs
  have hs5 : ∀ lo hi, hi ≤ 4 ∨ 8 ≤ lo → SameOn m4 m5 lo hi := fun lo hi hd => by
    rw [hm5]
    exact SameOn.put32 _ _ (by lia)
  have hmagic : bufMagic m6 = KLOG_BUFFER_HEADER_MAGIC := by
    rw [bufMagic, hlow.u32At (Nat.zero_le _) (by decide), (hs5 0 4 (.inl (by decide))).u32At (Nat.le_refl _) (Nat.le_refl _),
      hm4, u32At_put32_of_disjoint _ _ (by lia), hm3, u32At_put32_of_disjoint _ _ (by lia), hm2,
      u32At_put32_of_disjoint _ _ (by lia), hm1]
    exact u32At_put32 _ _ (by decide)
  have hlogcount : logCount m6 = count := by
    rw [logCount, hlow.u32At (Nat.zero_le _) (by decide), (hs5 8 12 (.inr (by decide))).u32At (Nat.le_refl _) (Nat.le_refl _),
      hm4, u32At_put32_of_disjoint _ _ (by lia), hm3, u32At_put32_of_disjoint _ _ (by lia), hm2]
    exact u32At_put32 _ _ hcount
  have hcurrent : currentLog m6 = 0 := by
    rw [currentLog, hlow.u32At (Nat.zero_le _) (by decide), (hs5 12 16 (.inr (by decide))).u32At (Nat.le_refl _) (Nat.le_refl _),
      hm4, u32At_put32_of_disjoint _ _ (by lia), hm3]
    exact u32At_put32 _ _ (by decide)
  have hcrc : getChecksumKlogBufferHeader m6 = headerCrc32 m6 := by
    have e : headerCrc32 m6 = getChecksumKlogBufferHeader m4 := by
      rw [headerCrc32, hlow.u32At (Nat.zero_le _) (by decide), hm5]
      exact u32At_put32 _ _ (Nat.mod_lt _ (by decide))
    rw [e]
    unfold getChecksumKlogBufferHeader
    rw [hlow.bytesAt (Nat.zero_le _) (by decide), (hs5 8 20 (.inr (by decide))).bytesAt (Nat.le_refl _) (by decide)]
  have hs₀ : s₀ = ⟨m6, 20⟩ := by
    unfold klogSetCurrentBuffer at hc
    rw [hlogcount, hcurrent, if_neg (by lia), if_neg (not_not.mpr rfl)] at hc
    exact (Option.some.inj hc).symm
  have hok : KlogOk count (createBufsize len count) s₀ := by
    rw [hs₀]
    refine ⟨hlogcount, hmagic, by rw [hcurrent]; lia, hcrc, fun i hi => (hlogs i hi).1, fun i hi => (hlogs i hi).2.2,
      ?_⟩
    show 20 = logAt _ (currentLog m6)
    rw [hcurrent, logAt, Nat.zero_mul]
  refine ⟨hok, ?_⟩
  rw [hok.view, hs₀]
  refine KlogView.ext rfl hcurrent rfl (funext fun i => ?_)
  show (if i < count then unread m6 (logAt (createBufsize len count) i) else []) = []
  split
  · rename_i hi
    exact (hlogs i hi).2.1
  · rfl

end

theorem klog_ok {m : Memory} {len count : Nat} {s₀ s : Klog} (hcount : count < 2 ^ 32)
    (hc : klogCreate m len count = some s₀) (hsize : createBufsize len count ≠ 0)
    (h : (klogSys s₀).Run KlogWhen s) : KlogOk count (createBufsize len count) s ∧
      ∀ op, KlogWhen s op → Refines count (createBufsize len count) s op := by
  have hB : createBufsize len count < 2 ^ 32 := by
    have h1 : (len - 20 - 20 * count) % 2 ^ 32 < 2 ^ 32 := Nat.mod_lt _ (by decide)
    have h2 := Nat.div_le_self ((len - 20 - 20 * count) % 2 ^ 32) count
    unfold createBufsize
    omega
  have hB4 : createBufsize len count % 4 = 0 := Nat.mul_mod_left _ _
  have hok : KlogOk count (createBufsize len count) s := by
    apply Machine.Run.invariant (I := KlogOk count (createBufsize len count)) _ _ h
    · rintro _ rfl
      exact (klogCreate_spec hcount hc hsize).1
    · rintro s op _ hok hwhen rfl
      exact (step_refines hok hcount hB hB4 hwhen).1
  exact ⟨hok, fun op hwhen => step_refines hok hcount hB hB4 hwhen⟩

/-- **The kernel log.**  In a run on logs of at least one byte whose calls meet the condition, each call does what it
does to the unread bytes and the sums of all logs are right; recovery of any memory reads only within the size that it
accepted if and only if `RecoverWhen`. -/
theorem klog_refines (m : Memory) (len count : Nat) (s₀ : Klog) (hcount : count < 2 ^ 32)
    (hc : klogCreate m len count = some s₀) (hsize : createBufsize len count ≠ 0) :
    (s₀.view = ⟨count, 0, fun i => if i < count then createBufsize len count else 0, fun _ => []⟩ ∧
      ∀ s, (klogSys s₀).Run KlogWhen s → KlogSums s ∧ ∀ op, KlogWhen s op →
        ((klogStep s op).1.view, (klogStep s op).2) = viewStep s.view op) ∧
    ∀ m', RecoverInside m' ↔ RecoverWhen m' := by
  refine ⟨⟨(klogCreate_spec hcount hc hsize).2, fun s h => ?_⟩, recover_inside_iff⟩
  obtain ⟨hok, hsteps⟩ := klog_ok hcount hc hsize h
  refine ⟨fun i hi => ?_, fun op hwhen => (hsteps op hwhen).2⟩
  have hi' : i < count := by
    have := hok.logs
    omega
  rw [findNthLog_eq hok.shape hi'.le]
  exact hok.sum i hi'

/-- two logs of four bytes -/
def twoLogs : Klog := (klogCreate (fun _ => 0) 68 2).getD ⟨fun _ => 0, 0⟩

/-- a byte written to the first log, and read from it after a restart -/
theorem klog_refines_restart : ∃ s, (klogSys twoLogs).Run KlogWhen s ∧ KlogSums s ∧
    ((klogStep s (.read 1 0)).1.view, (klogStep s (.read 1 0)).2) = viewStep s.view (.read 1 0) := by
  have hc : klogCreate (fun _ => 0) 68 2 = some twoLogs := rfl
  obtain ⟨⟨-, hrun⟩, -⟩ := klog_refines (fun _ => 0) 68 2 twoLogs (by decide) hc (by decide)
  have h0 : (klogSys twoLogs).Run KlogWhen twoLogs := .init rfl
  have h1 : (klogSys twoLogs).Run KlogWhen (klogStep twoLogs (.puts [97])).1 :=
    h0.step (a := .puts [97]) trivial rfl
  have hw : KlogWhen (klogStep twoLogs (.puts [97])).1 .restart := ⟨by decide, by decide⟩
  obtain ⟨s, hs⟩ : ∃ s, s = (klogStep (klogStep twoLogs (.puts [97])).1 .restart).1 := ⟨_, rfl⟩
  have h2 : (klogSys twoLogs).Run KlogWhen s := h1.step (a := .restart) hw hs
  have hcur : (0 : Int) < 0 ∨ (0 : Int).toNat = currentLog s.mem := by
    rw [hs]
    exact .inr (by decide +kernel)
  have hover : logTail s.mem s.klog + min 1 (unread s.mem s.klog).length < 2 ^ 32 := by
    rw [hs]
    decide +kernel
  obtain ⟨hsums, hsteps⟩ := hrun s h2
  exact ⟨s, h2, hsums, hsteps (.read 1 0) ((if_pos hcur).mpr hover)⟩

/-- **A read of the first log while the second is current.**  The tail of the second log moves. -/
theorem klog_refines_fails : ¬ ∀ (m : Memory) (len count : Nat) (s₀ : Klog), count < 2 ^ 32 →
    klogCreate m len count = some s₀ → ∀ s, (klogSys s₀).Reach s → ∀ op,
      ((klogStep s op).1.view, (klogStep s op).2) = viewStep s.view op := by
  intro h
  have hc : klogCreate (fun _ => 0) 68 2 = some twoLogs := rfl
  have h0 : (klogSys twoLogs).Reach twoLogs := .init rfl
  have h1 : (klogSys twoLogs).Reach (klogStep twoLogs (.puts [97])).1 := h0.step (a := .puts [97]) trivial rfl
  have h2 := h1.step (a := .setCurrentBuffer 1) trivial rfl
  have hstep := h (fun _ => 0) 68 2 twoLogs (by decide) hc _ h2 (.read 1 0)
  have e := congrArg (fun p : KlogView × KlogRet => (p.1.unread 1).length) hstep
  have h3 : ((klogStep (klogStep (klogStep twoLogs (.puts [97])).1 (.setCurrentBuffer 1)).1
      (.read 1 0)).1.view.unread 1).length = 3 := by decide
  have h4 : ((viewStep (klogStep (klogStep twoLogs (.puts [97])).1 (.setCurrentBuffer 1)).1.view
      (.read 1 0)).1.unread 1).length = 0 := by decide
  dsimp only at e
  rw [h3, h4] at e
  cases e

end LkHv.KernelLog
