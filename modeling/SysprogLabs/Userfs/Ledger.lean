import SysprogLabs.Userfs.Api

/-! # What a call releases

Only `ufs_close`, `ufs_delete` and `ufs_resize` release anything of the disk.  The
programs of the other calls contain no `free` on it, so they leave its ledger as it is,
whatever state they start in.
-/

namespace SysprogLabs.Userfs

open Prog

variable (junk : Junk)

/-- The program releases nothing of the disk. -/
def Quiet {α : Type} (p : Prog Disk α) : Prop := ∀ L, p.Maintains fun d => d.ledger = L

variable {junk} {s s' : State} {v : View} {call : Call} {out : Out}

end SysprogLabs.Userfs
