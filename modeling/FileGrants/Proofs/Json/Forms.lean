import FileGrants.Json.Form
import FileGrants.Proofs.Json.Values

/-!
Contract: values whose JSON form stands for them.

Owns:
- when the form of a value can be written and is read as the value, and that both texts of the
  form are then read as the value;
- this for texts, flags, counts, lists, sets of names and values that may be absent;
- the fields of an object whose pairs are among those of a record, some of them left out.

Does not own: the records.

A record is read field by field, and each field by its own name. The object of a record needs
distinct names for this, in whatever order and whichever of them are left out.
-/

namespace FileGrants

namespace JsonForm

/-- Whether the form of a value can be written and is read as the value. -/
structure Keeps {α : Type} [JsonForm α] (value : α) : Prop where
  writable : (toJson value).IsWritable
  reads : ofJson? (toJson value) = some value

/-- Whether a value is read from its compact text and from its laid-out text. -/
def IsReadBack {α : Type} [JsonForm α] (value : α) : Prop :=
  ofText? (toText value) = some value ∧ ofText? (toLaidOutText value) = some value

section

variable {α : Type} [JsonForm α] {value : α}

theorem Keeps.isReadBack (keeps : Keeps value) : IsReadBack value := by
  obtain ⟨compact, laidOut⟩ := Json.parse?_written keeps.writable
  constructor
  · rw [ofText?, toText, compact, Option.bind_some, keeps.reads]
  · rw [ofText?, toLaidOutText, laidOut, Option.bind_some, keeps.reads]

/-! ## Single values -/

theorem keeps_string (text : String) : Keeps text :=
  ⟨.string text, rfl⟩

theorem keeps_bool (flag : Bool) : Keeps flag :=
  ⟨.bool flag, rfl⟩

theorem keeps_nat {count : Nat} (small : count < Json.countBound) : Keeps count :=
  ⟨.integer false count, if_pos small⟩

theorem ofJson?_of_ne_null {json : Json} (notNull : json ≠ .null) :
    (ofJson? json : Option (Option α)) = (ofJson? json).map some := by
  cases json with
  | null => exact absurd rfl notNull
  | _ => rfl

/-- A value that may be absent is kept as it is when present, if its form is not that of an
absent one. -/
theorem keeps_option
    {found : Option α}
    (keeps : ∀ value ∈ found, Keeps value)
    (notNull : ∀ value : α, toJson value ≠ .null) :
    Keeps found := by
  cases found with
  | none => exact ⟨.null, rfl⟩
  | some value =>
      obtain ⟨writable, reads⟩ := keeps value rfl
      refine ⟨writable, ?_⟩
      show ofJson? (toJson value) = some (some value)
      rw [ofJson?_of_ne_null (notNull value), reads, Option.map_some]

theorem keeps_list {values : List α} (keeps : ∀ value ∈ values, Keeps value) : Keeps values := by
  refine ⟨.array ?_, ?_⟩
  · intro item member
    obtain ⟨value, stands, rfl⟩ := List.mem_map.mp member
    exact (keeps value stands).writable
  · show (values.map toJson).mapM ofJson? = Option.some values
    induction values with
    | nil => rfl
    | cons value rest inductionHypothesis =>
        rw [List.map_cons, List.mapM_cons, (keeps value (by simp)).reads,
          inductionHypothesis fun other member => keeps other (by simp [member])]
        rfl

end

end JsonForm

namespace NameSet

theorem place_of_forall_lt
    {name : String}
    {names : List String}
    (last : ∀ other ∈ names, other < name) :
    place name names = names ++ [name] := by
  induction names with
  | nil => rfl
  | cons first rest inductionHypothesis =>
      have before := last first (by simp)
      have notBefore : ¬ name < first := fun after =>
        String.lt_irrefl first (String.lt_trans before after)
      have different : name ≠ first := fun same => String.lt_irrefl first (same ▸ before)
      rw [place, if_neg notBefore, if_neg different,
        inductionHypothesis fun other member => last other (by simp [member]), List.cons_append]

theorem foldl_insert_of_ascending
    {names : List String}
    {start : NameSet}
    (ascending : (start.names ++ names).Pairwise (· < ·)) :
    (names.foldl insert start).names = start.names ++ names := by
  induction names generalizing start with
  | nil => simp
  | cons name rest inductionHypothesis =>
      have last : ∀ other ∈ start.names, other < name := fun other member =>
        (List.pairwise_append.mp ascending).2.2 other member name (by simp)
      have placed : (start.insert name).names = start.names ++ [name] := place_of_forall_lt last
      rw [List.foldl_cons, inductionHypothesis (by simpa [placed] using ascending), placed]
      simp

/-- A set is the set of its listing. -/
theorem ofList_names (names : NameSet) : ofList names.names = names := by
  have listed : (ofList names.names).names = names.names :=
    foldl_insert_of_ascending names.ascending
  obtain ⟨_, _⟩ := names
  cases shape : ofList _ with
  | mk found _ => simp_all

end NameSet

theorem JsonForm.keeps_nameSet (names : NameSet) : Keeps names := by
  have listed : Keeps names.names := keeps_list fun name _ => keeps_string name
  refine ⟨listed.writable, ?_⟩
  show (ofJson? (toJson names.names) : Option (List String)).map NameSet.ofList = some names
  rw [listed.reads, Option.map_some, names.ofList_names]

/-! ## Fields -/

namespace Json

/-- The pairs of an object, those without a value left out. -/
def present : List (String × Option Json) → List (String × Json)
  | [] => []
  | (_, none) :: rest => present rest
  | (name, some value) :: rest => (name, value) :: present rest

variable {entries : List (String × Option Json)} {name : String} {value : Option Json}

theorem filter_present_of_notMem (absent : name ∉ entries.map Prod.fst) :
    (present entries).filter (fun pair => pair.1 = name) = [] := by
  induction entries with
  | nil => rfl
  | cons entry rest inductionHypothesis =>
      obtain ⟨key, found⟩ := entry
      obtain ⟨different, restAbsent⟩ := List.ne_and_not_mem_of_not_mem_cons absent
      cases found with
      | none => exact inductionHypothesis restAbsent
      | some found =>
          rw [present, List.filter_cons_of_neg (by simpa using different.symm)]
          exact inductionHypothesis restAbsent

/-- Where names are distinct, what is written under a name is what its entry says. -/
theorem filter_present_of_mem
    (distinct : (entries.map Prod.fst).Nodup)
    (member : (name, value) ∈ entries) :
    (present entries).filter (fun pair => pair.1 = name) =
      (value.map fun value => (name, value)).toList := by
  induction entries with
  | nil => cases member
  | cons entry rest inductionHypothesis =>
      obtain ⟨key, found⟩ := entry
      obtain ⟨absent, restDistinct⟩ := List.nodup_cons.mp distinct
      rcases List.mem_cons.mp member with same | later
      · obtain ⟨rfl, rfl⟩ := Prod.mk.inj same
        have noMore := filter_present_of_notMem absent
        cases value with
        | none => exact noMore
        | some value =>
            rw [present, List.filter_cons_of_pos (by simp), noMore]
            rfl
      · have others := inductionHypothesis restDistinct later
        have different : key ≠ name := by
          rintro rfl
          exact absent (List.mem_map.mpr ⟨_, later, rfl⟩)
        cases found with
        | none => exact others
        | some found => rw [present, List.filter_cons_of_neg (by simp [different]), others]

theorem valueOf?_present
    (distinct : (entries.map Prod.fst).Nodup)
    (member : (name, value) ∈ entries) :
    valueOf? (present entries) name = some value := by
  rw [valueOf?, filter_present_of_mem distinct member]
  cases value <;> rfl

/-- An object gives fields what is written under their names. -/
theorem mapM_valueOf?_present
    (distinct : (entries.map Prod.fst).Nodup)
    {asked : List (String × Option Json)}
    (among : ∀ entry ∈ asked, entry ∈ entries)
    {fields : List Field}
    (names : fields.map Field.name = asked.map Prod.fst) :
    fields.mapM (fun field => valueOf? (present entries) field.name) =
      some (asked.map Prod.snd) := by
  induction asked generalizing fields with
  | nil =>
      obtain rfl := List.map_eq_nil_iff.mp names
      rfl
  | cons entry rest inductionHypothesis =>
      obtain ⟨field, others, rfl, sameName, sameNames⟩ := List.map_eq_cons_iff.mp names
      have first : valueOf? (present entries) field.name = some entry.2 := by
        rw [sameName]
        exact valueOf?_present distinct (among entry (by simp))
      rw [List.mapM_cons, first,
        inductionHypothesis (fun other member => among other (by simp [member])) sameNames]
      rfl

/-- An object with the names of a record, some of them left out, gives each field its value. -/
theorem fieldValues?_present
    {fields : List Field}
    (names : fields.map Field.name = entries.map Prod.fst)
    (distinct : (entries.map Prod.fst).Nodup) :
    fieldValues? fields (.object (present entries)) = some (entries.map Prod.snd) :=
  mapM_valueOf?_present distinct (fun _ member => member) names

theorem isWritable_present
    (writable : ∀ entry ∈ entries, ∀ value ∈ entry.2, IsWritable value) :
    (object (present entries)).IsWritable := by
  refine .object ?_
  induction entries with
  | nil => nofun
  | cons entry rest inductionHypothesis =>
      obtain ⟨key, found⟩ := entry
      have others := inductionHypothesis fun other member => writable other (by simp [member])
      cases found with
      | none => exact others
      | some value =>
          rw [present, List.forall_mem_cons]
          exact ⟨writable (key, some value) (by simp) value rfl, others⟩

end Json

namespace JsonForm

open Json (required? optional? defaulted?)

variable {α : Type} [JsonForm α]

theorem Keeps.required?_eq {value : α} (keeps : Keeps value) :
    required? (some (toJson value)) = some value :=
  keeps.reads

theorem Keeps.optional?_eq {found : Option α} (keeps : Keeps found) :
    optional? (some (toJson found)) = some found :=
  keeps.reads

theorem Keeps.defaulted?_eq {value : α} (keeps : Keeps value) (default : α) :
    defaulted? default (some (toJson value)) = some value :=
  keeps.reads

/-- A field that is left out when its value is absent. -/
theorem Keeps.optional?_map_eq {found : Option α} (keeps : Keeps found) :
    optional? (found.map toJson) = some found := by
  cases found with
  | none => rfl
  | some value => exact keeps.reads

theorem Keeps.writable_map {found : Option α} (keeps : Keeps found) :
    ∀ json ∈ found.map toJson, json.IsWritable := by
  cases found with
  | none => nofun
  | some value =>
      intro json written
      obtain rfl := Option.some.inj written
      exact keeps.writable

/-- A record is kept if it is written with the names of its fields, which differ from each
other, if what it is written with can be, and if it is put together again from these values. -/
theorem keeps_record
    {value : α}
    {fields : List Json.Field}
    {assemble : List (Option Json) → Option α}
    (entries : List (String × Option Json))
    (written : toJson value = .object (Json.present entries))
    (isRead : ∀ json : Json, ofJson? json = (Json.fieldValues? fields json).bind assemble)
    (names : fields.map Json.Field.name = entries.map Prod.fst)
    (distinct : (fields.map Json.Field.name).Nodup)
    (writable : ∀ entry ∈ entries, ∀ json ∈ entry.2, json.IsWritable)
    (assembles : assemble (entries.map Prod.snd) = some value) :
    Keeps value := by
  refine ⟨written ▸ Json.isWritable_present writable, ?_⟩
  rw [isRead, written, Json.fieldValues?_present names (names ▸ distinct), Option.bind_some,
    assembles]

end JsonForm

end FileGrants
