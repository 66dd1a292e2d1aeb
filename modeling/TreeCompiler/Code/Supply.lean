set_option autoImplicit false

namespace TreeCompiler.Code

structure Temp where
  index : Nat
  deriving DecidableEq, Repr

def Temp.text (temp : Temp) : String := "t" ++ temp.index.repr

structure Label where
  text : String
  deriving DecidableEq, Repr

namespace Label

def main : Label := ⟨"main"⟩

def print : Label := ⟨"print"⟩

def function (name : String) : Label := ⟨"fn." ++ name⟩

-- No such label has a dot, so none is the label of a function.
def numbered (index : Nat) : Label := ⟨"L" ++ index.repr⟩

end Label

structure Supply where
  temps : Nat := 0
  labels : Nat := 0
  deriving DecidableEq, Repr

namespace Supply

def freshTemp : StateM Supply Temp := fun supply =>
  (⟨supply.temps⟩, { supply with temps := supply.temps + 1 })

def freshLabel : StateM Supply Label := fun supply =>
  (Label.numbered supply.labels, { supply with labels := supply.labels + 1 })

end Supply

end TreeCompiler.Code
