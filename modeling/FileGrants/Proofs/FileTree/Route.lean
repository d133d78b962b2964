import FileGrants.FileTree.Change
import Mathlib.Tactic

/-!
Contract: the way from a path to its place.

Owns:
- the way along segments as a relation, with the locations that it finds and the links
  that it follows;
- that a walk is such a way with a bound on the links;
- what a way does at its first segment, by what stands there;
- which other trees have the same way.

Does not own: how changes of a tree come about.

A walk is defined by recursion inside a recursion, and says nothing of the locations
that it looks at. A way is one derivation and lists these locations. A tree that has the
same entries there has the same way, and one that lacks an entry there has none.
-/

namespace FileGrants.FileTree

/-- Whether a walk looks a segment up as a name. -/
structure IsName (segment : String) : Prop where
  notCurrent : segment ≠ "."
  notParent : segment ≠ ".."
  short : Utf8.size segment.toList ≤ maxNameOctets

/-- The way along segments from a directory: the locations where it finds an entry, the
number of links that it follows, and where it ends. -/
inductive Leads (tree : FileTree) (follow : Bool) :
    Location → Bool → List String → List Location → Nat → Place → Prop where
  | done {here : Location} {named : Bool} :
      Leads tree follow here named [] [] 0 (.found here .directory named)
  | current {here : Location} {named : Bool} {segment : String} {rest : List String}
      {trail : List Location} {links : Nat} {place : Place}
      (isCurrent : segment = ".")
      (onward : Leads tree follow here false rest trail links place) :
      Leads tree follow here named (segment :: rest) trail links place
  | parent {here : Location} {named : Bool} {segment : String} {rest : List String}
      {trail : List Location} {links : Nat} {place : Place}
      (isParent : segment = "..")
      (onward : Leads tree follow here.dropLast false rest trail links place) :
      Leads tree follow here named (segment :: rest) trail links place
  | vacant {here : Location} {named : Bool} {segment : String}
      (isName : IsName segment)
      (absent : tree.entry? (here ++ [segment]) = none) :
      Leads tree follow here named [segment] [] 0 (.vacant (here ++ [segment]))
  | directory {here : Location} {named : Bool} {segment : String} {rest : List String}
      {trail : List Location} {links : Nat} {place : Place}
      (isName : IsName segment)
      (stands : tree.entry? (here ++ [segment]) = some .directory)
      (onward : Leads tree follow (here ++ [segment]) true rest trail links place) :
      Leads tree follow here named (segment :: rest) ((here ++ [segment]) :: trail) links place
  | link {here : Location} {named : Bool} {segment : String} {rest : List String}
      {trail : List Location} {links : Nat} {place : Place} {id : FileId} {target : String}
      (isName : IsName segment)
      (stands : tree.entry? (here ++ [segment]) = some (.link id target))
      (followed : rest ≠ [] ∨ follow = true)
      (onward : Leads tree follow (startOf target here) false (segmentsOf target ++ rest)
        trail links place) :
      Leads tree follow here named (segment :: rest) ((here ++ [segment]) :: trail)
        (links + 1) place
  | last {here : Location} {named : Bool} {segment : String} {entry : Entry}
      (isName : IsName segment)
      (stands : tree.entry? (here ++ [segment]) = some entry)
      (ends : entry ≠ .directory)
      (unfollowed : ∀ id target, entry = .link id target → follow = false) :
      Leads tree follow here named [segment] [here ++ [segment]] 0
        (.found (here ++ [segment]) entry true)

variable
  {tree other : FileTree}
  {follow : Bool}
  {here : Location}
  {named : Bool}
  {segments : List String}
  {trail otherTrail : List Location}
  {links otherLinks : Nat}
  {place otherPlace : Place}

/-! ## Walks are ways -/

/-- How a walk goes on after a link. -/
def onLink (tree : FileTree) (follow : Bool) :
    Nat → Location → List String → Except FileFault Place
  | 0 => fun _ _ => .error .tooManyLinks
  | links + 1 => tree.walk follow links

theorem walk_eq (links : Nat) (here : Location) (segments : List String) :
    tree.walk follow links here segments =
      tree.walkWith follow (tree.onLink follow links) here false segments := by
  cases links <;> rfl

/-- A walk along a way ends where the way does, unless there are too many links. -/
theorem Leads.walkWith_eq
    (leads : Leads tree follow here named segments trail links place)
    (allowed : Nat) :
    tree.walkWith follow (tree.onLink follow allowed) here named segments =
      if links ≤ allowed then .ok place else .error .tooManyLinks := by
  induction leads generalizing allowed with
  | done => rfl
  | current isCurrent onward inductionHypothesis =>
      rw [walkWith, if_pos isCurrent, inductionHypothesis]
  | parent isParent onward inductionHypothesis =>
      rw [walkWith, if_neg (by simp [isParent]), if_pos isParent, inductionHypothesis]
  | vacant isName absent =>
      rw [walkWith, if_neg isName.notCurrent, if_neg isName.notParent,
        if_neg (Nat.not_lt.mpr isName.short)]
      simp [absent]
  | directory isName stands onward inductionHypothesis =>
      rw [walkWith, if_neg isName.notCurrent, if_neg isName.notParent,
        if_neg (Nat.not_lt.mpr isName.short)]
      simp only [stands, inductionHypothesis]
  | link isName stands followed onward inductionHypothesis =>
      rw [walkWith, if_neg isName.notCurrent, if_neg isName.notParent,
        if_neg (Nat.not_lt.mpr isName.short)]
      simp only [stands]
      rw [if_neg (not_and_or.mpr (followed.imp_right not_not.mpr))]
      cases allowed with
      | zero => simp [onLink]
      | succ allowed =>
          rw [onLink, walk_eq, inductionHypothesis]
          simp
  | last isName stands ends unfollowed =>
      rw [walkWith, if_neg isName.notCurrent, if_neg isName.notParent,
        if_neg (Nat.not_lt.mpr isName.short)]
      rename_i entry
      cases entry with
      | directory => exact absurd rfl ends
      | file id => simp [stands]
      | device => simp [stands]
      | link id target => simp [stands, unfollowed id target rfl]

/-- A walk that ends somewhere has gone a way, if what it does at links does. -/
theorem leads_of_walkWith
    {onLink : Location → List String → Except FileFault Place}
    {allowed : Nat}
    (continues : ∀ here segments place, onLink here segments = .ok place →
      ∃ trail links, links + 1 ≤ allowed ∧ Leads tree follow here false segments trail links place)
    (ends : tree.walkWith follow onLink here named segments = .ok place) :
    ∃ trail links, links ≤ allowed ∧ Leads tree follow here named segments trail links place := by
  induction segments generalizing here named with
  | nil =>
      obtain rfl := Except.ok.inj ends
      exact ⟨[], 0, Nat.zero_le _, .done⟩
  | cons segment rest inductionHypothesis =>
      rw [walkWith] at ends
      by_cases isCurrent : segment = "."
      · rw [if_pos isCurrent] at ends
        obtain ⟨trail, links, bound, onward⟩ := inductionHypothesis ends
        exact ⟨trail, links, bound, .current isCurrent onward⟩
      by_cases isParent : segment = ".."
      · rw [if_neg isCurrent, if_pos isParent] at ends
        obtain ⟨trail, links, bound, onward⟩ := inductionHypothesis ends
        exact ⟨trail, links, bound, .parent isParent onward⟩
      by_cases long : maxNameOctets < Utf8.size segment.toList
      · rw [if_neg isCurrent, if_neg isParent, if_pos long] at ends
        cases ends
      have isName : IsName segment := ⟨isCurrent, isParent, Nat.not_lt.mp long⟩
      rw [if_neg isCurrent, if_neg isParent, if_neg long] at ends
      cases stands : tree.entry? (here ++ [segment]) with
      | none =>
          simp only [stands] at ends
          by_cases isLast : rest = []
          · rw [if_pos isLast] at ends
            obtain rfl := Except.ok.inj ends
            subst isLast
            exact ⟨[], 0, Nat.zero_le _, .vacant isName stands⟩
          · rw [if_neg isLast] at ends
            cases ends
      | some entry =>
          simp only [stands] at ends
          cases entry with
          | directory =>
              obtain ⟨trail, links, bound, onward⟩ := inductionHypothesis ends
              exact ⟨_, links, bound, .directory isName stands onward⟩
          | link id target =>
              simp only at ends
              by_cases isLast : rest = [] ∧ ¬ follow = true
              · rw [if_pos isLast] at ends
                obtain rfl := Except.ok.inj ends
                obtain ⟨rfl, unfollowed⟩ := isLast
                refine ⟨_, 0, Nat.zero_le _, .last isName stands (by simp) ?_⟩
                exact fun _ _ _ => Bool.eq_false_iff.mpr unfollowed
              · rw [if_neg isLast] at ends
                obtain ⟨trail, links, bound, onward⟩ := continues _ _ _ ends
                refine ⟨_, links + 1, bound, .link isName stands ?_ onward⟩
                rwa [not_and_or, not_not] at isLast
          | file id | device =>
              simp only at ends
              by_cases isLast : rest = []
              · rw [if_pos isLast] at ends
                obtain rfl := Except.ok.inj ends
                subst isLast
                exact ⟨_, 0, Nat.zero_le _, .last isName stands (by simp) (by simp)⟩
              · rw [if_neg isLast] at ends
                cases ends

theorem leads_of_walk
    {allowed : Nat}
    (ends : tree.walk follow allowed here segments = .ok place) :
    ∃ trail links, links ≤ allowed
      ∧ Leads tree follow here false segments trail links place := by
  induction allowed generalizing here segments place with
  | zero =>
      refine leads_of_walkWith ?_ ends
      intro here segments place continued
      simp at continued
  | succ allowed inductionHypothesis =>
      refine leads_of_walkWith ?_ ends
      intro here segments place continued
      obtain ⟨trail, links, bound, onward⟩ := inductionHypothesis continued
      exact ⟨trail, links, Nat.succ_le_succ bound, onward⟩

/-! ## The first segment of a way -/

section First

variable {segment : String} {rest : List String} {entry : Entry}

/-- How a way goes on at a name, by what stands there: it ends where there is nothing, goes
on in a directory and along the target of a link that it follows, and ends at anything
else. -/
def AtName (tree : FileTree) (follow : Bool) (here : Location) (segment : String)
    (rest : List String) (trail : List Location) (links : Nat) (place : Place) :
    Option Entry → Prop
  | none => rest = [] ∧ trail = [] ∧ links = 0 ∧ place = .vacant (here ++ [segment])
  | some .directory =>
      ∃ later, trail = (here ++ [segment]) :: later
        ∧ Leads tree follow (here ++ [segment]) true rest later links place
  | some (.link id target) =>
      if rest = [] ∧ follow = false then
        trail = [here ++ [segment]] ∧ links = 0
          ∧ place = .found (here ++ [segment]) (.link id target) true
      else
        ∃ later fewer, trail = (here ++ [segment]) :: later ∧ links = fewer + 1
          ∧ Leads tree follow (startOf target here) false (segmentsOf target ++ rest) later fewer
            place
  | some entry =>
      rest = [] ∧ trail = [here ++ [segment]] ∧ links = 0
        ∧ place = .found (here ++ [segment]) entry true

theorem Leads.of_current_cons
    (leads : Leads tree follow here named (segment :: rest) trail links place)
    (isCurrent : segment = ".") :
    Leads tree follow here false rest trail links place := by
  cases leads with
  | current _ onward => exact onward
  | parent isParent _ => simp [isCurrent] at isParent
  | vacant isName _ | directory isName _ _ | link isName _ _ _ | last isName _ _ _ =>
      exact absurd isCurrent isName.notCurrent

theorem Leads.of_parent_cons
    (leads : Leads tree follow here named (segment :: rest) trail links place)
    (isParent : segment = "..") :
    Leads tree follow here.dropLast false rest trail links place := by
  cases leads with
  | current isCurrent _ => simp [isParent] at isCurrent
  | parent _ onward => exact onward
  | vacant isName _ | directory isName _ _ | link isName _ _ _ | last isName _ _ _ =>
      exact absurd isParent isName.notParent

theorem Leads.at_name
    (leads : Leads tree follow here named (segment :: rest) trail links place)
    (isName : IsName segment) :
    tree.AtName follow here segment rest trail links place (tree.entry? (here ++ [segment])) := by
  cases leads with
  | current isCurrent _ => exact absurd isCurrent isName.notCurrent
  | parent isParent _ => exact absurd isParent isName.notParent
  | vacant _ absent =>
      rw [absent]
      exact ⟨rfl, rfl, rfl, rfl⟩
  | directory _ stands onward =>
      rw [stands]
      exact ⟨_, rfl, onward⟩
  | link _ stands followed onward =>
      have goesOn : ¬ (rest = [] ∧ follow = false) := by
        rintro ⟨isLast, unfollowed⟩
        simp [isLast, unfollowed] at followed
      rw [stands, AtName, if_neg goesOn]
      exact ⟨_, _, rfl, rfl, onward⟩
  | last isName stands ends unfollowed =>
      rw [stands]
      rename_i entry
      cases entry with
      | directory => exact absurd rfl ends
      | link id target =>
          rw [AtName, if_pos ⟨rfl, unfollowed id target rfl⟩]
          exact ⟨rfl, rfl, rfl⟩
      | file id | device => exact ⟨rfl, rfl, rfl, rfl⟩

variable (leads : Leads tree follow here named (segment :: rest) trail links place)

include leads

/-- Where nothing stands at a name, a way ends there. -/
theorem Leads.of_vacant
    (isName : IsName segment)
    (absent : tree.entry? (here ++ [segment]) = none) :
    rest = [] ∧ trail = [] ∧ links = 0 ∧ place = .vacant (here ++ [segment]) := by
  have atName := leads.at_name isName
  rwa [absent] at atName

/-- A way goes on in a directory. -/
theorem Leads.of_directory
    (isName : IsName segment)
    (stands : tree.entry? (here ++ [segment]) = some .directory) :
    ∃ later, trail = (here ++ [segment]) :: later
      ∧ Leads tree follow (here ++ [segment]) true rest later links place := by
  have atName := leads.at_name isName
  rwa [stands] at atName

/-- A way goes on along the target of a link that it follows. -/
theorem Leads.of_link
    {id : FileId}
    {target : String}
    (isName : IsName segment)
    (stands : tree.entry? (here ++ [segment]) = some (.link id target))
    (followed : rest ≠ [] ∨ follow = true) :
    ∃ later fewer, trail = (here ++ [segment]) :: later ∧ links = fewer + 1
      ∧ Leads tree follow (startOf target here) false (segmentsOf target ++ rest) later fewer
        place := by
  have atName := leads.at_name isName
  rwa [stands, AtName, if_neg] at atName
  rintro ⟨isLast, unfollowed⟩
  simp [isLast, unfollowed] at followed

/-- A way ends at anything that is neither a directory nor a link that it follows. -/
theorem Leads.of_last
    (isName : IsName segment)
    (stands : tree.entry? (here ++ [segment]) = some entry)
    (ends : entry ≠ .directory)
    (unfollowed : ∀ id target, entry = .link id target → rest = [] ∧ follow = false) :
    rest = [] ∧ trail = [here ++ [segment]] ∧ links = 0
      ∧ place = .found (here ++ [segment]) entry true := by
  have atName := leads.at_name isName
  rw [stands] at atName
  cases entry with
  | directory => exact absurd rfl ends
  | link id target =>
      rw [AtName, if_pos (unfollowed id target rfl)] at atName
      exact ⟨(unfollowed id target rfl).1, atName⟩
  | file id | device => exact atName

end First

/-- From one directory there is one way along segments. -/
theorem Leads.unique
    (leads : Leads tree follow here named segments trail links place)
    (alsoLeads : Leads tree follow here named segments otherTrail otherLinks otherPlace) :
    trail = otherTrail ∧ links = otherLinks ∧ place = otherPlace := by
  induction leads generalizing otherTrail otherLinks otherPlace with
  | done =>
      cases alsoLeads
      exact ⟨rfl, rfl, rfl⟩
  | current isCurrent _ inductionHypothesis =>
      exact inductionHypothesis (alsoLeads.of_current_cons isCurrent)
  | parent isParent _ inductionHypothesis =>
      exact inductionHypothesis (alsoLeads.of_parent_cons isParent)
  | vacant isName absent =>
      obtain ⟨-, rfl, rfl, rfl⟩ := alsoLeads.of_vacant isName absent
      exact ⟨rfl, rfl, rfl⟩
  | directory isName stands _ inductionHypothesis =>
      obtain ⟨later, rfl, alsoOnward⟩ := alsoLeads.of_directory isName stands
      obtain ⟨rfl, rfl, rfl⟩ := inductionHypothesis alsoOnward
      exact ⟨rfl, rfl, rfl⟩
  | link isName stands followed _ inductionHypothesis =>
      obtain ⟨later, fewer, rfl, rfl, alsoOnward⟩ := alsoLeads.of_link isName stands followed
      obtain ⟨rfl, rfl, rfl⟩ := inductionHypothesis alsoOnward
      exact ⟨rfl, rfl, rfl⟩
  | last isName stands ends unfollowed =>
      obtain ⟨-, rfl, rfl, rfl⟩ := alsoLeads.of_last isName stands ends
        fun id target isLink => ⟨rfl, unfollowed id target isLink⟩
      exact ⟨rfl, rfl, rfl⟩

/-! ## The trail -/

theorem entry?_of_ne_root {location : Location} (ne : location ≠ []) :
    tree.entry? location = tree.entries.lookup location :=
  if_neg ne

theorem Leads.exists_entry
    (leads : Leads tree follow here named segments trail links place)
    {location : Location}
    (passed : location ∈ trail) :
    ∃ entry, tree.entry? location = some entry := by
  induction leads with
  | done | vacant => simp at passed
  | current _ _ inductionHypothesis | parent _ _ inductionHypothesis =>
      exact inductionHypothesis passed
  | directory isName stands onward inductionHypothesis
  | link isName stands followed onward inductionHypothesis =>
      rcases List.mem_cons.mp passed with rfl | later
      · exact ⟨_, stands⟩
      · exact inductionHypothesis later
  | last isName stands ends unfollowed =>
      rw [List.mem_singleton.mp passed]
      exact ⟨_, stands⟩

/-- The root is no location of a trail: no name leads to it. -/
theorem Leads.root_notMem_trail
    (leads : Leads tree follow here named segments trail links place) :
    [] ∉ trail := by
  induction leads <;> simp_all

/-- A tree with the same entries along the trail, and none at a vacant end, has the same
way. -/
theorem Leads.congr
    (leads : Leads tree follow here named segments trail links place)
    (same : ∀ location ∈ trail, other.entry? location = tree.entry? location)
    (free : ∀ location, place = .vacant location → other.entry? location = none) :
    Leads other follow here named segments trail links place := by
  induction leads with
  | done => exact .done
  | current isCurrent onward inductionHypothesis =>
      exact .current isCurrent (inductionHypothesis same free)
  | parent isParent onward inductionHypothesis =>
      exact .parent isParent (inductionHypothesis same free)
  | vacant isName absent => exact .vacant isName (free _ rfl)
  | directory isName stands onward inductionHypothesis =>
      have first := same _ (List.mem_cons_self ..)
      refine .directory isName (first.trans stands) (inductionHypothesis ?_ free)
      intro location passed
      exact same location (List.mem_cons_of_mem _ passed)
  | link isName stands followed onward inductionHypothesis =>
      have first := same _ (List.mem_cons_self ..)
      refine .link isName (first.trans stands) followed (inductionHypothesis ?_ free)
      intro location passed
      exact same location (List.mem_cons_of_mem _ passed)
  | last isName stands ends unfollowed =>
      have only := same _ (List.mem_singleton_self _)
      exact .last isName (only.trans stands) ends unfollowed

/-- Where the trail is closed: above a location that a way finds, it finds every other
one, apart from those above the directory that it starts from. -/
theorem Leads.mem_trail_of_prefix
    (leads : Leads tree follow here named segments trail links place)
    {location top : Location}
    (passed : location ∈ trail)
    (above : top <+: location)
    (ne : top ≠ []) :
    top <+: here ∨ top ∈ trail := by
  induction leads with
  | done | vacant => simp at passed
  | current _ _ inductionHypothesis => exact inductionHypothesis passed
  | parent _ _ inductionHypothesis =>
      exact (inductionHypothesis passed).imp_left fun start =>
        start.trans (List.dropLast_prefix _)
  | directory isName stands onward inductionHypothesis =>
      rename_i here _ segment _ trail _ _
      have stepped (start : top <+: here ++ [segment]) :
          top <+: here ∨ top ∈ (here ++ [segment]) :: trail := by
        rcases List.prefix_concat_iff.mp start with same | start
        · exact Or.inr (by simp [same])
        · exact Or.inl start
      rcases List.mem_cons.mp passed with rfl | later
      · exact stepped above
      · rcases inductionHypothesis later with start | found
        · exact stepped start
        · exact Or.inr (List.mem_cons_of_mem _ found)
  | link isName stands followed onward inductionHypothesis =>
      rename_i here _ segment _ _ _ _ _ target
      rcases List.mem_cons.mp passed with rfl | later
      · rcases List.prefix_concat_iff.mp above with same | start
        · exact Or.inr (by simp [same])
        · exact Or.inl start
      · rcases inductionHypothesis later with start | found
        · unfold startOf at start
          split_ifs at start
          · exact absurd (List.prefix_nil.mp start) ne
          · exact Or.inl start
        · exact Or.inr (List.mem_cons_of_mem _ found)
  | last isName stands ends unfollowed =>
      rw [List.mem_singleton.mp passed] at above
      rcases List.prefix_concat_iff.mp above with same | start
      · exact Or.inr (by simp [same])
      · exact Or.inl start

/-- A way along names that meets no link before its end leads where the names say. -/
theorem Leads.location_eq_append
    {location : Location}
    {entry : Entry}
    {foundNamed : Bool}
    (leads : Leads tree false here named segments trail links (.found location entry foundNamed))
    (names : ∀ segment ∈ segments, segment ≠ "." ∧ segment ≠ "..")
    (noLink : ∀ leading, leading <+: segments → leading ≠ [] → leading ≠ segments →
      ∀ id target, tree.entry? (here ++ leading) ≠ some (.link id target)) :
    location = here ++ segments := by
  generalize ended : Place.found location entry foundNamed = place at leads
  induction leads with
  | done =>
      cases ended
      simp
  | current isCurrent => exact absurd isCurrent (names _ (List.mem_cons_self ..)).1
  | parent isParent => exact absurd isParent (names _ (List.mem_cons_self ..)).2
  | vacant => cases ended
  | directory isName stands onward inductionHypothesis =>
      have onwardNames := fun segment member => names segment (List.mem_cons_of_mem _ member)
      rw [inductionHypothesis onwardNames ?_ ended, List.append_assoc, List.singleton_append]
      intro leading isPrefix some shorter id target
      rw [List.append_assoc, List.singleton_append]
      refine noLink _ ((List.cons_prefix_cons).mpr ⟨rfl, isPrefix⟩) (by simp) ?_ id target
      intro same
      exact shorter (List.cons.inj same).2
  | link isName stands followed onward inductionHypothesis =>
      have more := followed.resolve_right (by simp)
      refine absurd stands (noLink [_] ?_ (by simp) ?_ _ _)
      · exact List.cons_prefix_cons.mpr ⟨rfl, List.nil_prefix⟩
      · intro same
        exact more (List.cons.inj same).2.symm
  | last =>
      cases ended
      rfl

/-! ## Ways one after the other -/

/-- A way along segments is a way along the first of them, to a directory with links
followed, and from there a way along the others. -/
theorem Leads.split
    {first second : List String}
    (leads : Leads tree follow here named (first ++ second) trail links place)
    (more : second ≠ []) :
    ∃ leading middle middleNamed remaining firstLinks secondLinks,
      Leads tree true here named first leading firstLinks (.found middle .directory middleNamed)
        ∧ Leads tree follow middle middleNamed second remaining secondLinks place
        ∧ trail = leading ++ remaining ∧ links = firstLinks + secondLinks := by
  -- Each step leaves fewer of the first segments, or it follows a link.
  induction links using Nat.strong_induction_on generalizing here named first trail with
  | _ links afterLink =>
      induction first generalizing here named trail with
      | nil => exact ⟨[], here, named, trail, 0, links, .done, leads, rfl, (Nat.zero_add _).symm⟩
      | cons segment rest inductionHypothesis =>
          have moreLeft : rest ++ second ≠ [] := by simp [more]
          rw [List.cons_append] at leads
          generalize whole : rest ++ second = left at leads moreLeft
          cases leads with
          | current isCurrent onward =>
              obtain ⟨leading, middle, middleNamed, remaining, firstLinks, secondLinks, toMiddle,
                fromMiddle, rfl, rfl⟩ := inductionHypothesis (whole ▸ onward)
              exact ⟨leading, middle, middleNamed, remaining, firstLinks, secondLinks,
                .current isCurrent toMiddle, fromMiddle, rfl, rfl⟩
          | parent isParent onward =>
              obtain ⟨leading, middle, middleNamed, remaining, firstLinks, secondLinks, toMiddle,
                fromMiddle, rfl, rfl⟩ := inductionHypothesis (whole ▸ onward)
              exact ⟨leading, middle, middleNamed, remaining, firstLinks, secondLinks,
                .parent isParent toMiddle, fromMiddle, rfl, rfl⟩
          | directory isName stands onward =>
              obtain ⟨leading, middle, middleNamed, remaining, firstLinks, secondLinks, toMiddle,
                fromMiddle, rfl, rfl⟩ := inductionHypothesis (whole ▸ onward)
              exact ⟨_, middle, middleNamed, remaining, firstLinks, secondLinks,
                .directory isName stands toMiddle, fromMiddle, rfl, rfl⟩
          | link isName stands _ onward =>
              rw [← whole, ← List.append_assoc] at onward
              obtain ⟨leading, middle, middleNamed, remaining, firstLinks, secondLinks, toMiddle,
                fromMiddle, rfl, rfl⟩ := afterLink _ (Nat.lt_succ_self _) onward
              exact ⟨_, middle, middleNamed, remaining, firstLinks + 1, secondLinks,
                .link isName stands (Or.inr rfl) toMiddle, fromMiddle, rfl, by omega⟩
          | vacant | last => exact absurd rfl moreLeft

/-- A way to something that is no link is also a way with links followed. -/
theorem Leads.followed
    {location : Location}
    {entry : Entry}
    {foundNamed : Bool}
    (leads : Leads tree false here named segments trail links (.found location entry foundNamed))
    (notLink : ∀ id target, entry ≠ .link id target) :
    Leads tree true here named segments trail links (.found location entry foundNamed) := by
  generalize ended : Place.found location entry foundNamed = place at leads
  induction leads with
  | done => exact .done
  | current isCurrent onward inductionHypothesis =>
      exact .current isCurrent (inductionHypothesis ended)
  | parent isParent onward inductionHypothesis =>
      exact .parent isParent (inductionHypothesis ended)
  | vacant => cases ended
  | directory isName stands onward inductionHypothesis =>
      exact .directory isName stands (inductionHypothesis ended)
  | link isName stands followed onward inductionHypothesis =>
      exact .link isName stands (Or.inr rfl) (inductionHypothesis ended)
  | last isName stands ends unfollowed =>
      cases ended
      exact .last isName stands ends fun id target isLink => absurd isLink (notLink id target)

/-- A way along one segment to a link that it does not follow looks the segment up. -/
theorem Leads.eq_of_link
    {segment : String}
    {location : Location}
    {id : FileId}
    {target : String}
    {foundNamed : Bool}
    (leads : Leads tree false here named [segment] trail links
      (.found location (.link id target) foundNamed)) :
    IsName segment ∧ tree.entry? (here ++ [segment]) = some (.link id target) := by
  cases leads with
  | current _ onlyDone | parent _ onlyDone | directory _ _ onlyDone => cases onlyDone
  | link _ _ followed _ => simp at followed
  | last isName stands _ _ => exact ⟨isName, stands⟩

/-- Where one way ends at a link that it does not follow, another one along the same
segments and more goes on along the target of the link. -/
theorem Leads.onward_of_link
    {rest : List String}
    {location : Location}
    {id : FileId}
    {target : String}
    {foundNamed : Bool}
    (toLink : Leads tree false here named segments trail links
      (.found location (.link id target) foundNamed))
    (leads : Leads tree true here named (segments ++ rest) otherTrail otherLinks otherPlace) :
    ∃ middle onwardTrail onwardLinks,
      Leads tree true (startOf target middle) false (segmentsOf target ++ rest) onwardTrail
          onwardLinks otherPlace
        ∧ onwardTrail ⊆ otherTrail := by
  rcases List.eq_nil_or_concat segments with rfl | ⟨first, segment, rfl⟩
  · cases toLink
  · rw [List.concat_eq_append] at toLink leads
    rw [List.append_assoc, List.singleton_append] at leads
    obtain ⟨_, middle, middleNamed, _, _, _, toMiddle, fromMiddle, -, -⟩ :=
      toLink.split (by simp)
    obtain ⟨_, _, _, _, _, _, alsoToMiddle, onward, rfl, -⟩ := leads.split (by simp)
    obtain ⟨-, -, same⟩ := toMiddle.unique alsoToMiddle
    obtain ⟨rfl, -, rfl⟩ := Place.found.inj same
    obtain ⟨isName, stands⟩ := fromMiddle.eq_of_link
    obtain ⟨later, fewer, rfl, -, alongTarget⟩ := onward.of_link isName stands (Or.inr rfl)
    refine ⟨middle, later, fewer, alongTarget, ?_⟩
    intro location passed
    exact List.mem_append_right _ (List.mem_cons_of_mem _ passed)

end FileGrants.FileTree
