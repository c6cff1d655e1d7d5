import Offspring.Text.Basic
/-!
# Output channels

A program writes to two channels, and whoever started it reads them.  A read takes
what is there, up to a fixed number of bytes, and takes nothing only at the end of
the channel.
-/

namespace Offspring

/-- One of the two outputs of a program. -/
inductive Channel where
  | out
  | err
  deriving DecidableEq, Repr

/-- The most bytes that one read takes. -/
def readSize : Nat := 4096

/-- Bytes as the reads that take them, when all are there at once. -/
def Bytes.reads (bs : Bytes) : List Bytes :=
  go bs.length bs
where
  /-- The reads of some bytes, at most so many of them. -/
  go : Nat → Bytes → List Bytes
    | 0, _ => []
    | n + 1, bs => if bs.isEmpty then [] else bs.take readSize :: go n (bs.drop readSize)

end Offspring
