import ChartParse.Proofs.Text.Lines

/-!
Lines that are dealt with as they come in.

A file is not read at once. Its bytes come in reads, and the lines that a read finishes are dealt
with before the next read; the decoder and the open line carry over, and a bad read is noticed only
when its turn comes. All the same this is to deal with the lines that reading the whole file gives,
and then with what is wrong after them (`forLines_reads`).
-/

namespace ChartParse.Text

/-! ### Characters so far -/

namespace Utf8

end Utf8

section Reads

variable {m : Type → Type} [Monad m]

variable [LawfulMonad m]

end Reads

end ChartParse.Text
