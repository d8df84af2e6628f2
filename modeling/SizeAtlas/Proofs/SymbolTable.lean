import SizeAtlas.Proofs.Roster
import SizeAtlas.SymbolTable

/-!
# Totals of symbol tables

How the total of a table changes with each operation.  Only a symbol that takes
the place of another one can make a total grow by less than its size.

## Main statements

* `total_insert` — the exact change by entering a symbol.
* `total_extend_le` — merging never makes more bytes than both tables have.
* `total_addSize` — adding bytes to a symbol adds them to the total.
-/

namespace SizeAtlas.SymbolTable

/-! ## Totals -/

theorem total_eq (t : SymbolTable) : t.total = (t.entries.map Symbol.size).sum := rfl

@[simp] theorem total_empty : total (∅ : SymbolTable) = 0 := rfl

/-- Entering `s` adds its bytes and takes away those of the symbol it replaces. -/
theorem total_insert (t : SymbolTable) (s : Symbol) :
    total (t.insert s) + ((t.find? s.name).map Symbol.size).getD 0 = t.total + s.size :=
  Roster.sum_insert Symbol.size t s

theorem total_insert_le (t : SymbolTable) (s : Symbol) :
    total (t.insert s) ≤ t.total + s.size :=
  Roster.sum_insert_le Symbol.size t s

theorem total_insert_of_notMem {t : SymbolTable} {s : Symbol} (h : s.name ∉ t.keys) :
    total (t.insert s) = t.total + s.size := by
  have := total_insert t s
  rw [Roster.find?_eq_none_iff.2 h] at this
  simpa using this

theorem total_extend_le (t u : SymbolTable) : total (t.extend u) ≤ t.total + u.total :=
  Roster.sum_extend_le Symbol.size t u

/-! ## Adding bytes -/

/-- The entries after `n` bytes were added under `name`. -/
theorem entries_addSize (t : SymbolTable) (name : String) (n : Nat) :
    (t.addSize name n).entries =
      t.entries.map fun s => if s.name = name then s.grow n else s :=
  rfl

@[simp] theorem keys_addSize (t : SymbolTable) (name : String) (n : Nat) :
    (t.addSize name n).keys = t.keys :=
  Roster.keys_modify t name _ _

theorem find?_addSize (t : SymbolTable) (name name' : String) (n : Nat) :
    (t.addSize name n).find? name' =
      (t.find? name').map fun s => if name' = name then s.grow n else s :=
  Roster.find?_modify t name name' _ _

theorem total_addSize {t : SymbolTable} {name : String} (n : Nat) (h : name ∈ t.keys) :
    (t.addSize name n).total = t.total + n :=
  Roster.sum_map_ite (fun _ => rfl) t.nodup h

end SizeAtlas.SymbolTable
