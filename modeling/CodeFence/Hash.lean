import CodeFence.Text.Units

/-!
# Content hash

The polynomial of a text's sixteen-bit units in powers of 31, kept to 32 bits and read as a signed
number.
-/

namespace CodeFence

/-- The hash of a text of hash `h` with one more unit behind it.  Both are added up, `h` 31 times,
which is a shift by five bits less `h` itself. -/
def hashUnit (h : Int32) (u : UInt16) : Int32 :=
  (h <<< 5) - h + u.toUInt32.toInt32

/-- The hash of a text that continues one with hash `h`. -/
def hashFrom (h : Int32) (us : List UInt16) : Int32 :=
  us.foldl hashUnit h

/-- The hash of a text. -/
def contentHash (code : String) : Int32 :=
  hashFrom 0 (Text.units code.toList)

end CodeFence
