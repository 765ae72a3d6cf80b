/-! Machine words. Counts, positions and lengths of time are natural numbers in this library; what
a word of the machine could not hold is refused by an explicit comparison with these bounds. -/
namespace StoreBench

/-- The largest value of a 64-bit word. -/
def wordMax : Nat := 18446744073709551615

/-- The largest value of a 32-bit word. -/
def halfWordMax : Nat := 4294967295

end StoreBench
