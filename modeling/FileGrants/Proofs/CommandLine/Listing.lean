import FileGrants.CommandLine.Run
import FileGrants.Proofs.Grant.Rows

/-!
Contract: the table that the grants of an application are printed as.

Owns:
- when a text can be cut at an octet, and what the cut leaves;
- what is listed of a table of grants, whatever wrote its rows;
- how printing a listing ends.

Does not own: what the grants allow.

The time of a grant is shown up to a fixed octet. Times that are made here have ASCII characters
alone, each of one octet, and can be cut anywhere. A time that something else wrote can have a
character across that octet, and then there is no beginning to show.
-/

namespace FileGrants

/-! ## Cutting at an octet -/

namespace Utf8

@[simp] theorem size_nil : size [] = 0 := rfl

@[simp] theorem size_cons (c : Char) (text : List Char) :
    size (c :: text) = (encodeChar c).length + size text := by
  rw [size, size, encode, encode, List.flatMap_cons, List.length_append]

@[simp] theorem size_append (front back : List Char) :
    size (front ++ back) = size front + size back := by
  rw [size, size, size, encode, encode, encode, List.flatMap_append, List.length_append]

theorem length_encodeChar_pos (c : Char) : 0 < (encodeChar c).length :=
  List.length_pos_iff.mpr (encodeChar_ne_nil c)

theorem size_eq_zero_iff {text : List Char} : size text = 0 ↔ text = [] := by
  cases text with
  | nil => simp
  | cons c text =>
      have positive := length_encodeChar_pos c
      rw [size_cons]
      simp only [reduceCtorEq, iff_false]
      omega

end Utf8

namespace CommandLine

open Utf8

/-- Whether a character of a text begins before an octet and ends after it. -/
def LiesAcross (octet : Nat) (text : List Char) : Prop :=
  ∃ front c back, text = front ++ c :: back
    ∧ size front < octet ∧ octet < size front + (encodeChar c).length

variable {octets : Nat} {text front : List Char}

@[simp] theorem beginning?_zero (text : List Char) : beginning? 0 text = some [] := by
  rw [beginning?]

/-- A beginning that takes octets begins with the first character, if this is short enough. -/
theorem beginning?_cons {c : Char} {rest : List Char} (notZero : octets ≠ 0) :
    beginning? octets (c :: rest) =
      if octets < (encodeChar c).length then none
      else (beginning? (octets - (encodeChar c).length) rest).map (c :: ·) := by
  obtain ⟨less, rfl⟩ := Nat.exists_eq_succ_of_ne_zero notZero
  rfl

/-- A beginning is told by its octets. -/
theorem beginning?_eq_some_iff :
    beginning? octets text = some front ↔ front <+: text ∧ size front = octets := by
  have atZero (text front : List Char) :
      beginning? 0 text = some front ↔ front <+: text ∧ size front = 0 := by
    rw [beginning?_zero, Option.some.injEq, size_eq_zero_iff]
    constructor
    · rintro rfl
      exact ⟨List.nil_prefix, rfl⟩
    · exact fun both => both.2.symm
  induction text generalizing octets front with
  | nil =>
      cases octets with
      | zero => exact atZero [] front
      | succ octets =>
          simp only [beginning?, reduceCtorEq, List.prefix_nil, false_iff, not_and]
          rintro rfl
          simp
  | cons c rest inductionHypothesis =>
      rcases eq_or_ne octets 0 with rfl | notZero
      · exact atZero (c :: rest) front
      rw [beginning?_cons notZero]
      cases front with
      | nil => split_ifs <;> simp [notZero.symm]
      | cons d front =>
          rw [List.cons_prefix_cons, size_cons]
          split_ifs with tooLong
          · simp only [false_iff, not_and, and_imp]
            rintro rfl -
            omega
          · simp only [Option.map_eq_some_iff, inductionHypothesis, List.cons.injEq]
            constructor
            · rintro ⟨_, ⟨begins, taken⟩, rfl, rfl⟩
              exact ⟨⟨rfl, begins⟩, by omega⟩
            · rintro ⟨⟨rfl, begins⟩, taken⟩
              exact ⟨front, ⟨begins, by omega⟩, rfl, rfl⟩

/-- A text that is long enough has no beginning exactly if a character is in the way. -/
theorem beginning?_eq_none_iff (long : octets ≤ size text) :
    beginning? octets text = none ↔ LiesAcross octets text := by
  induction text generalizing octets with
  | nil =>
      obtain rfl := Nat.le_zero.mp long
      simp [LiesAcross]
  | cons c rest inductionHypothesis =>
      have positive := length_encodeChar_pos c
      rw [size_cons] at long
      rcases eq_or_ne octets 0 with rfl | notZero
      · simp [LiesAcross]
      rw [beginning?_cons notZero]
      split_ifs with tooLong
      · rw [eq_self_iff_true, true_iff]
        exact ⟨[], c, rest, rfl, Nat.pos_of_ne_zero notZero, by simpa using tooLong⟩
      · rw [Option.map_eq_none_iff, inductionHypothesis (by omega)]
        constructor
        · rintro ⟨front, d, back, rfl, begins, ends⟩
          exact ⟨c :: front, d, back, rfl, by rw [size_cons]; omega, by rw [size_cons]; omega⟩
        · rintro ⟨front, d, back, shape, begins, ends⟩
          cases front with
          | nil =>
              obtain ⟨rfl, rfl⟩ := List.cons.inj shape
              rw [size_nil] at ends
              omega
          | cons e front =>
              obtain ⟨rfl, rfl⟩ := List.cons.inj shape
              rw [size_cons] at begins ends
              exact ⟨front, d, back, rfl, by omega, by omega⟩

/-- A text has no character across an octet behind it. -/
theorem LiesAcross.lt_size (across : LiesAcross octets text) : octets < size text := by
  obtain ⟨front, c, back, rfl, -, ends⟩ := across
  rw [size_append, size_cons]
  omega

instance (octets : Nat) (text : List Char) : Decidable (LiesAcross octets text) :=
  decidable_of_iff (octets ≤ size text ∧ beginning? octets text = none)
    ⟨fun ⟨long, noBeginning⟩ => (beginning?_eq_none_iff long).mp noBeginning,
      fun across => ⟨across.lt_size.le, (beginning?_eq_none_iff across.lt_size.le).mpr across⟩⟩

/-! ## Times -/

/-- What is shown of a time: as much of it as can be, up to the limit in octets. -/
def IsShownTime (time shown : String) : Prop :=
  shown.toList <+: time.toList
    ∧ size shown.toList = min shownTimeOctets (size time.toList)

theorem shownTime?_eq_some_iff {time shown : String} :
    shownTime? time = some shown ↔ IsShownTime time shown := by
  unfold shownTime? IsShownTime
  split_ifs with short
  · rw [min_eq_right short, Option.some.injEq]
    constructor
    · rintro rfl
      exact ⟨List.prefix_rfl, rfl⟩
    · rintro ⟨⟨rest, whole⟩, taken⟩
      rw [← whole, size_append] at taken
      have nothing : rest = [] := size_eq_zero_iff.mp (by omega)
      rw [nothing, List.append_nil] at whole
      exact (String.toList_inj.mp whole).symm
  · rw [min_eq_left (Nat.le_of_not_le short), Option.map_eq_some_iff]
    constructor
    · rintro ⟨front, cut, rfl⟩
      rw [String.toList_ofList]
      exact beginning?_eq_some_iff.mp cut
    · intro begins
      exact ⟨shown.toList, beginning?_eq_some_iff.mpr begins, String.ofList_toList⟩

theorem shownTime?_eq_none_iff {time : String} :
    shownTime? time = none ↔ LiesAcross shownTimeOctets time.toList := by
  unfold shownTime?
  split_ifs with short
  · rw [false_iff]
    exact fun across => absurd across.lt_size (Nat.not_lt.mpr short)
  · rw [Option.map_eq_none_iff, beginning?_eq_none_iff (Nat.le_of_not_le short)]

/-- In a text of ASCII characters none lies across an octet. -/
theorem not_liesAcross_of_ascii (ascii : ∀ c ∈ text, c.toNat < 0x80) :
    ¬ LiesAcross octets text := by
  rintro ⟨front, c, back, rfl, begins, ends⟩
  have short : (encodeChar c).length = 1 := by
    rw [encodeChar, if_pos (ascii c (by simp))]
    rfl
  omega

end CommandLine

/-! ## Listings -/

theorem AccessMode.code_of_ofCode? {code : Int} {mode : AccessMode}
    (reads : ofCode? code = some mode) :
    (mode.code : Int) = code := by
  unfold ofCode? at reads
  split at reads
  all_goals simp only [Option.some.injEq, reduceCtorEq] at reads
  all_goals
    rw [← reads]
    rfl

theorem Row.path_and_mode_of_grant? {row : Row} {grant : Grant}
    (records : row.grant? = some grant) :
    grant.path = row.path ∧ (grant.mode.code : Int) = row.mode := by
  obtain ⟨mode, isMode, rfl⟩ := Option.map_eq_some_iff.mp records
  exact ⟨rfl, AccessMode.code_of_ofCode? isMode⟩

/-- What is listed of rows for an application: every grant that a row of it records, as often as
rows record it, by the octets of the path and then by the code of the mode. -/
structure IsListing (rows : List Row) (appId : String) (grants : List Grant) : Prop where
  complete : grants.Perm ((rows.filter fun row => row.appId = appId).filterMap Row.grant?)
  ascending : grants.Pairwise fun left right =>
    Utf8.encode left.path.toList < Utf8.encode right.path.toList
      ∨ left.path = right.path ∧ left.mode.code ≤ right.mode.code

/-- A table with the column for the last activation is listed, whatever its rows hold. -/
theorem GrantTable.exists_list {table : GrantTable}
    (hasColumn : table.hasActivation = true)
    (appId : String) :
    ∃ grants, table.list appId = .ok grants ∧ IsListing table.rows appId grants := by
  refine ⟨_, if_pos hasColumn, (List.mergeSort_perm _ _).filterMap Row.grant?, ?_⟩
  rw [List.pairwise_filterMap]
  refine (List.pairwise_mergeSort Row.precedes_trans Row.precedes_total _).imp ?_
  intro left right ordered leftGrant leftRecords rightGrant rightRecords
  obtain ⟨leftPath, leftMode⟩ := Row.path_and_mode_of_grant? leftRecords
  obtain ⟨rightPath, rightMode⟩ := Row.path_and_mode_of_grant? rightRecords
  rw [Row.precedes_iff, ← leftPath, ← rightPath, ← leftMode, ← rightMode, Int.ofNat_le] at ordered
  exact ordered.imp_left (Utf8.encode_lt_encode_iff _ _).mpr

theorem Manager.perform_list {manager : Manager} {held : Holdings} {grants : List Grant}
    (persists : manager.platform.canPersist = true)
    (listed : held.table.list manager.caller.appId = .ok grants)
    (files : FileTree)
    (now : String) :
    manager.perform files now held .list = (.answered (.grants grants), held) := by
  simp only [perform, admits, admitsDevice, persists, if_true, work, listed]

namespace CommandLine

/-! ## Printing -/

/-- The line of a grant in the table. -/
def IsLine (grant : Grant) (line : String) : Prop :=
  ∃ shown, IsShownTime grant.updatedAt shown
    ∧ line = tableLine grant.mode.name (truth grant.active) shown grant.path

theorem grantLine?_eq_some_iff {grant : Grant} {line : String} :
    grantLine? grant = some line ↔ IsLine grant line := by
  rw [grantLine?, Option.map_eq_some_iff]
  exact exists_congr fun shown => and_congr shownTime?_eq_some_iff eq_comm

theorem grantLine?_eq_none_iff {grant : Grant} :
    grantLine? grant = none ↔ LiesAcross shownTimeOctets grant.updatedAt.toList := by
  rw [grantLine?, Option.map_eq_none_iff, shownTime?_eq_none_iff]

theorem IsLine.not_liesAcross {grant : Grant} {line : String} (isLine : IsLine grant line) :
    ¬ LiesAcross shownTimeOctets grant.updatedAt.toList := by
  rw [← grantLine?_eq_none_iff, grantLine?_eq_some_iff.mpr isLine]
  exact Option.some_ne_none line

/-- How the printing of grants ends. Without any there is a notice, and else a table with one line
for each. A time that cannot be cut breaks off the run where its line would be, whatever is then
said of it. -/
inductive Prints (app : String) : List Grant → Outcome → Prop where
  | notice : Prints app [] (success ["No persisted permissions for " ++ app ++ "."])
  | table {grants : List Grant} {rows : List String}
      (more : grants ≠ [])
      (each : List.Forall₂ IsLine grants rows) :
      Prints app grants (success (tableHead ++ rows))
  | broken {shown later : List Grant} {grant : Grant} {rows : List String} {errors : String}
      (each : List.Forall₂ IsLine shown rows)
      (across : LiesAcross shownTimeOctets grant.updatedAt.toList) :
      Prints app (shown ++ grant :: later) ⟨101, lines (tableHead ++ rows), errors⟩

/-- The lines of the grants before are printed, and the rest of the table follows them. -/
theorem prints_printTable (app : String) (grants : List Grant) :
    ∀ {shown : List Grant} {rows : List String}, List.Forall₂ IsLine shown rows →
      shown ++ grants ≠ [] →
      Prints app (shown ++ grants) (printTable (tableHead ++ rows) grants) := by
  induction grants with
  | nil =>
      intro shown rows each more
      rw [List.append_nil] at more ⊢
      exact .table more each
  | cons grant later inductionHypothesis =>
      intro shown rows each more
      cases line : grantLine? grant with
      | none =>
          simp only [printTable, line]
          exact .broken each (grantLine?_eq_none_iff.mp line)
      | some text =>
          simp only [printTable, line]
          have isLine := grantLine?_eq_some_iff.mp line
          have longer : List.Forall₂ IsLine (shown ++ [grant]) (rows ++ [text]) :=
            List.rel_append each (.cons isLine .nil)
          rw [List.append_cons] at more ⊢
          rw [List.append_assoc tableHead]
          exact inductionHypothesis longer more

theorem prints_printGrants (app : String) (grants : List Grant) :
    Prints app grants (printGrants app false grants) := by
  unfold printGrants
  rw [if_neg Bool.false_ne_true]
  split_ifs with none
  · rw [none]
    exact .notice
  · simpa using prints_printTable app grants .nil none

/-- A run that prints grants ends normally exactly if every time can be shown. -/
theorem Prints.status_eq_zero_iff {app : String} {grants : List Grant} {outcome : Outcome}
    (prints : Prints app grants outcome) :
    outcome.status = 0 ↔
      ∀ grant ∈ grants, ¬ LiesAcross shownTimeOctets grant.updatedAt.toList := by
  cases prints with
  | notice => simp [success]
  | table more each =>
      simp only [success, true_iff]
      have shown := each.imp fun _ _ isLine => And.intro isLine.not_liesAcross isLine
      exact ((List.forall₂_and_left _ _).mp shown).1
  | broken each across =>
      simp only [OfNat.ofNat_ne_zero, false_iff, not_forall]
      exact ⟨_, by simp, not_not.mpr across⟩

section Run

variable
  {environment : Environment}
  {files tree : FileTree}
  {arguments : List String}
  {app : Option String}
  {config : Config}
  {directory : String}
  {store : StoreHandle}

/-- A run that lists, on a device that can persist and from a store that opens and has its
columns, prints what is listed. -/
theorem exists_prints
    (reads : read arguments = .ok ⟨app, .list false⟩)
    (loads : Config.load environment files = .ok config)
    (places : (config.actingAs app).dataDirectory environment = .ok directory)
    (opens : GrantStore.openIn files directory = (.ok store, tree))
    (hasColumn : (store.table tree).hasActivation = true)
    (persists : (config.actingAs app).platform.canPersist = true)
    (now : String) :
    ∃ grants, IsListing (store.table tree).rows (config.actingAs app).app grants
      ∧ Prints (config.actingAs app).app grants (run environment files now arguments).1 := by
  obtain ⟨grants, listed, isListing⟩ := GrantTable.exists_list hasColumn (config.actingAs app).app
  have performed : (config.actingAs app).manager.perform tree now ⟨store.table tree, .empty⟩
      .list = (.answered (.grants grants), ⟨store.table tree, .empty⟩) :=
    Manager.perform_list persists listed tree now
  have ends : (run environment files now arguments).1 =
      printGrants (config.actingAs app).app false grants := by
    simp only [run, reads, runInvocation, withConfig, loads, runRequest, places, opens, performed]
  refine ⟨grants, isListing, ?_⟩
  rw [ends]
  exact prints_printGrants (config.actingAs app).app grants

end Run

/-- A store that has two grants of `com.a`, one with a time that a batch wrote and one with a time
of another kind, a row of it that records no grant, and a row of `com.b`. -/
def datedTable (time : String) : GrantTable :=
  ⟨[1, 2], true,
    [⟨"com.a", "/n/1", 2, "com.a", 0, "t", "2024-05-01T10:00:00.123456789+00:00", none⟩,
      ⟨"com.a", "/n/0", 1, "com.a", 1, "t", time, none⟩,
      ⟨"com.a", "/n/2", 7, "com.a", 1, "t", "t", none⟩,
      ⟨"com.b", "/n/3", 1, "com.b", 1, "t", "t", none⟩]⟩

def datedFiles (time : String) : FileTree :=
  ⟨[(["d"], .directory), (["d", "fileshare"], .directory),
    (["d", "fileshare", "grants.db"], .file 1)],
    [(1, .grants ⟨datedTable time, true⟩)], 2, []⟩

def dataEnvironment : Environment :=
  ⟨[("XDG_DATA_HOME", "/d")], none⟩

def listArguments : List String :=
  ["--app", "com.a", "list"]

/-- The files after the store was opened. -/
def openedFiles (time : String) : FileTree :=
  (GrantStore.openIn (datedFiles time) "/d/fileshare").2

/-- The grants that the store records for `com.a`, in the order of its rows. -/
def recordedGrants (time : String) : List Grant :=
  ((datedTable time).rows.filter fun row => row.appId = "com.a").filterMap Row.grant?

/-- Whether listing comes to a store with a time: the arguments and the settings are read, the
store opens with its columns, and the device is supported. -/
structure ReachesListing (time : String) : Prop where
  reads : read listArguments = .ok ⟨some "com.a", .list false⟩
  loads : Config.load dataEnvironment (datedFiles time) = .ok Config.empty
  places : (Config.empty.actingAs (some "com.a")).dataDirectory dataEnvironment =
    .ok "/d/fileshare"
  opens : (GrantStore.openIn (datedFiles time) "/d/fileshare").1 = .ok (.file 1)
  holds : (StoreHandle.file 1).table (openedFiles time) = datedTable time
  persists : (Config.empty.actingAs (some "com.a")).platform.canPersist = true

namespace ReachesListing

variable {time : String}

theorem openIn_eq (reaches : ReachesListing time) :
    GrantStore.openIn (datedFiles time) "/d/fileshare" = (.ok (.file 1), openedFiles time) :=
  Prod.ext reaches.opens rfl

theorem hasColumn (reaches : ReachesListing time) :
    ((StoreHandle.file 1).table (openedFiles time)).hasActivation = true := by
  rw [reaches.holds]
  rfl

end ReachesListing

/-- A time with a character of two octets behind the cut. -/
def lateTime : String := "on the second day at the café"

/-- A time with such a character across the cut. -/
def noonTime : String := "on the second day at café noon"

theorem reachesListing_lateTime : ReachesListing lateTime := by
  constructor <;> decide +kernel

theorem reachesListing_noonTime : ReachesListing noonTime := by
  constructor <;> decide +kernel

end CommandLine

end FileGrants
