/-!
Contract: finite sets of names.

Owns: membership, insertion, union and the listing in ascending order. The
order is that of the code points, which is also that of the UTF-8 octets.

Does not own: what the names mean.

A set is its ascending listing, so two sets with the same members are equal.
-/

namespace FileGrants

/-- A finite set of names, kept as its strictly ascending listing. -/
structure NameSet where
  names : List String
  ascending : names.Pairwise (· < ·)
deriving DecidableEq

namespace NameSet

/-- Puts a name into a listing at its place, unless it is there. -/
def place (name : String) : List String → List String
  | [] => [name]
  | first :: rest =>
      if name < first then name :: first :: rest
      else if name = first then first :: rest
      else first :: place name rest

/-- Placing adds the name and nothing else. -/
theorem mem_place
    (name other : String)
    (names : List String) :
    other ∈ place name names ↔ other = name ∨ other ∈ names := by
  induction names with
  | nil => simp [place]
  | cons first rest inductionHypothesis =>
      by_cases before : name < first
      · simp [place, before]
      · by_cases same : name = first
        · simp [place, same]
        · simp only [place, before, same, if_false, List.mem_cons, inductionHypothesis]
          exact or_left_comm

/-- A name that neither precedes nor equals another one follows it. -/
theorem lt_of_not_lt_of_ne
    {name other : String}
    (notBefore : ¬ name < other)
    (different : name ≠ other) :
    other < name :=
  String.not_le.mp fun notAfter =>
    different (String.le_antisymm notAfter (String.not_lt.mp notBefore))

/-- Placing keeps a listing ascending. -/
theorem ascending_place
    (name : String)
    (names : List String)
    (ascending : names.Pairwise (· < ·)) :
    (place name names).Pairwise (· < ·) := by
  induction names with
  | nil => simp [place]
  | cons first rest inductionHypothesis =>
      obtain ⟨firstLeast, restAscending⟩ := List.pairwise_cons.mp ascending
      by_cases before : name < first
      · simp only [place, before, if_true]
        refine List.pairwise_cons.mpr ⟨?_, ascending⟩
        intro other member
        rcases List.mem_cons.mp member with rfl | later
        · exact before
        · exact String.lt_trans before (firstLeast other later)
      · by_cases same : name = first
        · simpa only [place, before, same, String.lt_irrefl, if_false, if_true] using ascending
        · simp only [place, before, same, if_false]
          refine List.pairwise_cons.mpr ⟨?_, inductionHypothesis restAscending⟩
          intro other member
          rcases (mem_place name other rest).mp member with rfl | later
          · exact lt_of_not_lt_of_ne before same
          · exact firstLeast other later

def empty : NameSet :=
  ⟨[], List.Pairwise.nil⟩

instance : Inhabited NameSet := ⟨empty⟩

def insert (names : NameSet) (name : String) : NameSet :=
  ⟨place name names.names, ascending_place name names.names names.ascending⟩

/-- The set of the names in a list. -/
def ofList (names : List String) : NameSet :=
  names.foldl insert empty

def union (left right : NameSet) : NameSet :=
  right.names.foldl insert left

/-- Whether a name is in the set. -/
def contains (names : NameSet) (name : String) : Bool :=
  names.names.contains name

def isEmpty (names : NameSet) : Bool :=
  names.names.isEmpty

end NameSet

end FileGrants
