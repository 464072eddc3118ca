/-!
# Widths of integers

Integers of 64 bits lie below `limit64` without a sign, and from `-signLimit64` up to below
`signLimit64` with one; likewise for 128 bits.
-/

namespace Bundler

def signLimit64 : Nat := 0x8000000000000000

def limit64 : Nat := 0x10000000000000000

def signLimit128 : Nat := 0x80000000000000000000000000000000

def limit128 : Nat := 0x100000000000000000000000000000000

end Bundler
