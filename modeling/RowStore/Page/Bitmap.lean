/-! Bits in an array of bytes; bit `i` is bit `i % 8` of byte `i / 8`. -/
namespace RowStore

abbrev Bitmap := Array UInt8

namespace Bitmap

/-- A byte with one bit, that of position `i`. -/
def mask (i : Nat) : UInt8 := 1 <<< UInt8.ofNat (i % 8)

def get (b : Bitmap) (i : Nat) : Bool := b.getD (i / 8) 0 &&& mask i != 0

def set (b : Bitmap) (i : Nat) : Bitmap := b.modify (i / 8) (· ||| mask i)

def clear (b : Bitmap) (i : Nat) : Bitmap := b.modify (i / 8) (· &&& ~~~mask i)

end Bitmap
end RowStore
