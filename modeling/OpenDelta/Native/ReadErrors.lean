import OpenDelta.Native.Adjust
import OpenDelta.Native.Dedelta
import OpenDelta.Zip.Structure

/-!
# Failing reads

`xseekread` notices a `read` that returns `-1`. The loops of `xfilecopy`,
`xdecompress` and `dedelta` do not: only a later call that fails in a way they
look at makes them give up.
-/

namespace OpenDelta.Native
open OpenDelta.Computation Zip

/-- **Failing reads are detected exactly if there are none, or some call of the
run makes the function give up.** -/
theorem readErrors_iff (P : Platform) (Z : Zlib) (X : Xdelta) (fin : Bytes) (decompress : Bool)
    (fsource fdelta : Bytes) :
    (Detects SystemCall.readFails (zipadjust P Z fin decompress) ↔
      (∃ fuel, ∃ c ∈ ((zipadjust P Z fin decompress).run fuel 0).2, c.aborts P) ∨
        ∀ fuel, ∀ c ∈ ((zipadjust P Z fin decompress).run fuel 0).2, ¬c.readFails) ∧
    (Detects SystemCall.readFails (dedelta P X fsource fdelta) ↔
      (∃ fuel, ∃ c ∈ ((dedelta P X fsource fdelta).run fuel 0).2, c.aborts P) ∨
        ∀ fuel, ∀ c ∈ ((dedelta P X fsource fdelta).run fuel 0).2, ¬c.readFails) :=
  ⟨detects_iff (zipadjust_careful P Z fin decompress) (zipadjust_live fin decompress),
    detects_iff (dedelta_failsBy P X fsource fdelta).careful (dedelta_live fsource fdelta)⟩

/-! ### A failing read in `xfilecopy` -/

/-- A platform on which one `read` fails, and everything else works. -/
def failingOnce (call : Nat) : Platform where
  sizeMax := 2 ^ 32 - 1
  read n := if n = call then none else some (2 ^ 20)
  write _ := some (2 ^ 20)
  works _ := true
  memory _ := []
  sizeMax_large := working.sizeMax_large

set_option maxRecDepth 4000

/-- The read of the data of the sample's entry fails; the next one reads a byte
more than the entry has. -/
theorem failingRead_unnoticed :
    ¬Detects SystemCall.readFails (zipadjust (failingOnce 63) storedBlock.zlib sampleZip.bytes false) := by
  rintro ⟨-, detects⟩
  have read : SystemCall.read .filecopy 6 none ∈
      ((zipadjust (failingOnce 63) storedBlock.zlib sampleZip.bytes false).run 25 0).2 := by decide
  have returned : ((zipadjust (failingOnce 63) storedBlock.zlib sampleZip.bytes false).run 25 0).1.isOk = true := by
    decide
  have ended : ((zipadjust (failingOnce 63) storedBlock.zlib sampleZip.bytes false).run 25 0).1 ≠ .error .unfinished := by
    intro unfinished
    rw [unfinished] at returned
    cases returned
  rw [detects 25 ended ⟨_, read, trivial⟩] at returned
  cases returned

end OpenDelta.Native
