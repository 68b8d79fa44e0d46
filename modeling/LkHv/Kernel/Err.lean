/-!
# Error codes (`lk/err.h`)
-/

namespace LkHv

def NO_ERROR : Int := 0
def ERR_GENERIC : Int := -1
def ERR_NOT_FOUND : Int := -2
def ERR_NO_MEMORY : Int := -5
def ERR_INVALID_ARGS : Int := -8
def ERR_NOT_ENOUGH_BUFFER : Int := -9
def ERR_OBJECT_DESTROYED : Int := -11
def ERR_TIMED_OUT : Int := -13
def ERR_ALREADY_EXISTS : Int := -14
def ERR_NOT_ALLOWED : Int := -17
def ERR_BAD_PATH : Int := -18
def ERR_ALREADY_MOUNTED : Int := -19
def ERR_IO : Int := -20
def ERR_NOT_SUPPORTED : Int := -24
def ERR_TOO_BIG : Int := -25
def ERR_CANCELLED : Int := -26
def ERR_CHECKSUM_FAIL : Int := -28
def ERR_CRC_FAIL : Int := -29
def ERR_BAD_STATE : Int := -31
def ERR_BAD_LEN : Int := -32
def ERR_BUSY : Int := -33
def ERR_OUT_OF_RANGE : Int := -37
def ERR_NOT_MOUNTED : Int := -39
def ERR_BAD_HANDLE : Int := -42
def ERR_PARTIAL_WRITE : Int := -44

end LkHv
