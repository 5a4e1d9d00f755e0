import ClearMsig.Basic

/-!
# The wallet account

`state/wallet.rs`.
-/

namespace ClearMsig

structure ClearWallet where
  bump : UInt8
  proposalIndex : UInt64
  intentIndex : UInt8
  nameLen : UInt8
  /-- `[u8; 64]`, of which the first `nameLen` bytes are the name. -/
  nameBuf : ByteArr 64
  deriving DecidableEq

/-- `ClearWallet::name`. The source reads the bytes as a string without checking them. -/
def ClearWallet.name (w : ClearWallet) : Bytes := w.nameBuf.val.take w.nameLen.toNat

end ClearMsig
