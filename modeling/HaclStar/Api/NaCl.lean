import HaclStar.Api.Box

/-! The NaCl interface: the forwarding functions, and the C functions in front of them. -/

namespace HaclStar.Api

open Memory

namespace NaCl

def cryptoBoxBeforenm (curve : Box.Curve25519) (k pk sk : Buffer) : Stack UInt32 :=
  Box.cryptoBoxBeforenm curve k pk sk

def cryptoBoxDetachedAfternm (c mac m : Buffer) (mlen : UInt64) (n k : Buffer) : Stack UInt32 :=
  Box.cryptoBoxDetachedAfternm c mac m mlen n k

def cryptoBoxEasyAfternm (c m : Buffer) (mlen : UInt64) (n k : Buffer) : Stack UInt32 :=
  Box.cryptoBoxEasyAfternm c m mlen n k

def cryptoBoxEasy (curve : Box.Curve25519) (c m : Buffer) (mlen : UInt64) (n pk sk : Buffer) :
    Stack UInt32 :=
  Box.cryptoBoxEasy curve c m mlen n pk sk

def cryptoBoxOpenEasy (curve : Box.Curve25519) (m c : Buffer) (mlen : UInt64) (n pk sk : Buffer) :
    Stack UInt32 :=
  Box.cryptoBoxOpenEasy curve m c mlen n pk sk

def cryptoBoxOpenEasyAfternm (m c : Buffer) (mlen : UInt64) (n k : Buffer) : Stack UInt32 :=
  Box.cryptoBoxOpenEasyAfternm m c mlen n k

end NaCl

namespace Haclnacl

def cryptoBoxEasy (curve : Box.Curve25519) (c m : Buffer) (mlen : UInt64) (n pk sk : Buffer) :
    Stack UInt32 :=
  NaCl.cryptoBoxEasy curve c m mlen n pk sk

def cryptoBoxOpenEasy (curve : Box.Curve25519) (m c : Buffer) (clen : UInt64) (n pk sk : Buffer) :
    Stack UInt32 :=
  NaCl.cryptoBoxOpenEasy curve m c clen n pk sk

def cryptoBoxBeforenm (curve : Box.Curve25519) (k pk sk : Buffer) : Stack UInt32 :=
  NaCl.cryptoBoxBeforenm curve k pk sk

def cryptoBoxDetachedAfternm (c mac m : Buffer) (mlen : UInt64) (n k : Buffer) : Stack UInt32 :=
  NaCl.cryptoBoxDetachedAfternm c mac m mlen n k

/-- The function that opens calls the one that seals: the message buffer takes the place of its
ciphertext, the ciphertext that of its tag, and the tag that of its message. -/
def cryptoBoxOpenDetachedAfternm (m c mac : Buffer) (mlen : UInt64) (n k : Buffer) : Stack UInt32 :=
  NaCl.cryptoBoxDetachedAfternm m c mac mlen n k

end Haclnacl

end HaclStar.Api
