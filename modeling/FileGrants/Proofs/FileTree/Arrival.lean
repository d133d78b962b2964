import FileGrants.Proofs.FileTree.Part

/-!
Contract: walks that arrive at a location.

Owns:
- when a walk comes to look a location up, with the segments that it has left there;
- where a walk goes on from a link that it arrives at;
- that a link to a path whose own walk arrives at the link leads nowhere.

Does not own: how such a link comes about.

A way tells the locations that it found but not in which order they were looked up, and it
has to end somewhere. An arrival stops at one location, whatever stands there.
-/

namespace FileGrants.FileTree

/-- Whether a walk along segments from a directory looks a location up, with other
segments left. -/
inductive Arrives (tree : FileTree) : Location → List String → Location → List String → Prop where
  | here {here : Location} {segment : String} {rest : List String}
      (isName : IsName segment) :
      Arrives tree here (segment :: rest) (here ++ [segment]) rest
  | current {here location : Location} {segment : String} {rest left : List String}
      (isCurrent : segment = ".")
      (onward : Arrives tree here rest location left) :
      Arrives tree here (segment :: rest) location left
  | parent {here location : Location} {segment : String} {rest left : List String}
      (isParent : segment = "..")
      (onward : Arrives tree here.dropLast rest location left) :
      Arrives tree here (segment :: rest) location left
  | directory {here location : Location} {segment : String} {rest left : List String}
      (isName : IsName segment)
      (stands : tree.entry? (here ++ [segment]) = some .directory)
      (onward : Arrives tree (here ++ [segment]) rest location left) :
      Arrives tree here (segment :: rest) location left
  | link {here location : Location} {segment : String} {rest left : List String}
      {id : FileId} {target : String}
      (isName : IsName segment)
      (stands : tree.entry? (here ++ [segment]) = some (.link id target))
      (onward : Arrives tree (startOf target here) (segmentsOf target ++ rest) location left) :
      Arrives tree here (segment :: rest) location left

variable
  {tree other : FileTree}
  {follow named : Bool}
  {here location top : Location}
  {segments left : List String}
  {trail : List Location}
  {links : Nat}
  {place : Place}

theorem Arrives.append
    (arrives : Arrives tree here segments location left)
    (more : List String) :
    Arrives tree here (segments ++ more) location (left ++ more) := by
  induction arrives with
  | here isName => exact .here isName
  | current isCurrent _ inductionHypothesis => exact .current isCurrent inductionHypothesis
  | parent isParent _ inductionHypothesis => exact .parent isParent inductionHypothesis
  | directory isName stands _ inductionHypothesis =>
      exact .directory isName stands inductionHypothesis
  | link isName stands _ inductionHypothesis =>
      rw [List.append_assoc] at inductionHypothesis
      exact .link isName stands inductionHypothesis

/-- A way to a vacant place arrives there, also in a tree that has something there. -/
theorem Leads.arrives_of_vacant
    (leads : Leads tree follow here named segments trail links (.vacant location))
    (isPart : tree.IsPartOf other) :
    Arrives other here segments location [] := by
  generalize ended : Place.vacant location = place at leads
  induction leads with
  | done | last => cases ended
  | current isCurrent _ inductionHypothesis =>
      exact .current isCurrent (inductionHypothesis ended)
  | parent isParent _ inductionHypothesis => exact .parent isParent (inductionHypothesis ended)
  | vacant isName _ =>
      cases ended
      exact .here isName
  | directory isName stands _ inductionHypothesis =>
      exact .directory isName (isPart.entries _ _ stands) (inductionHypothesis ended)
  | link isName stands _ _ inductionHypothesis =>
      exact .link isName (isPart.entries _ _ stands) (inductionHypothesis ended)

/-- A way that finds a location arrives there, also in a tree that differs only at the
location and below, if the way does not start there. -/
theorem Leads.arrives_of_mem_trail
    (leads : Leads tree follow here named segments trail links place)
    (passes : top ∈ trail)
    (notBelow : ¬ top <+: here)
    (kept : ∀ location entry, ¬ top <+: location → tree.entry? location = some entry →
      other.entry? location = some entry) :
    ∃ left, Arrives other here segments top left := by
  have outside {here : Location} {segment : String} (notBelow : ¬ top <+: here)
      (ne : top ≠ here ++ [segment]) : ¬ top <+: here ++ [segment] := fun below =>
    (List.prefix_concat_iff.mp below).elim ne notBelow
  induction leads with
  | done | vacant => simp at passes
  | current isCurrent _ inductionHypothesis =>
      obtain ⟨left, onward⟩ := inductionHypothesis passes notBelow
      exact ⟨left, .current isCurrent onward⟩
  | parent isParent _ inductionHypothesis =>
      obtain ⟨left, onward⟩ := inductionHypothesis passes
        fun below => notBelow (below.trans (List.dropLast_prefix _))
      exact ⟨left, .parent isParent onward⟩
  | directory isName stands leadsOnward inductionHypothesis =>
      rcases List.mem_cons.mp passes with rfl | later
      · exact ⟨_, .here isName⟩
      · rename_i here _ segment _ _ _ _
        by_cases isHere : top = here ++ [segment]
        · subst isHere
          exact ⟨_, .here isName⟩
        · obtain ⟨left, onward⟩ := inductionHypothesis later (outside notBelow isHere)
          exact ⟨left, .directory isName (kept _ _ (outside notBelow isHere) stands) onward⟩
  | link isName stands followed leadsOnward inductionHypothesis =>
      rename_i here _ segment _ _ _ _ _ target
      by_cases isHere : top = here ++ [segment]
      · subst isHere
        exact ⟨_, .here isName⟩
      · have later := (List.mem_cons.mp passes).resolve_left isHere
        have startsOutside : ¬ top <+: startOf target here := by
          unfold startOf
          split_ifs
          · intro below
            exact notBelow (below.trans List.nil_prefix)
          · exact notBelow
        obtain ⟨left, onward⟩ := inductionHypothesis later startsOutside
        exact ⟨left, .link isName (kept _ _ (outside notBelow isHere) stands) onward⟩
  | last isName _ _ _ =>
      rw [List.mem_singleton.mp passes]
      exact ⟨[], .here isName⟩

/-- A way along segments that arrive at a link goes on along the target of the link, and
has followed fewer links by then. -/
theorem Arrives.leads_onward
    {id : FileId}
    {target : String}
    (arrives : Arrives tree here segments location left)
    (isLink : tree.entry? location = some (.link id target))
    (leads : Leads tree true here named segments trail links place) :
    ∃ onwardTrail onwardLinks, onwardLinks < links
      ∧ Leads tree true (startOf target location.dropLast) false (segmentsOf target ++ left)
        onwardTrail onwardLinks place := by
  induction arrives generalizing named trail links with
  | here isName =>
      obtain ⟨later, fewer, -, rfl, onward⟩ := leads.of_link isName isLink (Or.inr rfl)
      rw [List.dropLast_concat]
      exact ⟨later, fewer, Nat.lt_succ_self fewer, onward⟩
  | current isCurrent _ inductionHypothesis =>
      exact inductionHypothesis isLink (leads.of_current_cons isCurrent)
  | parent isParent _ inductionHypothesis =>
      exact inductionHypothesis isLink (leads.of_parent_cons isParent)
  | directory isName stands _ inductionHypothesis =>
      obtain ⟨later, -, onward⟩ := leads.of_directory isName stands
      exact inductionHypothesis isLink onward
  | link isName stands _ inductionHypothesis =>
      obtain ⟨later, fewer, -, rfl, alongTarget⟩ := leads.of_link isName stands (Or.inr rfl)
      obtain ⟨onwardTrail, onwardLinks, bound, onward⟩ := inductionHypothesis isLink alongTarget
      exact ⟨onwardTrail, onwardLinks, Nat.lt_succ_of_lt bound, onward⟩

/-- A link to a path whose own walk arrives at the link leads nowhere: every way along
the path would contain one that follows fewer links. -/
theorem Arrives.not_leads
    {id : FileId}
    {target : String}
    (arrives : Arrives tree [] (segmentsOf target) location left)
    (isLink : tree.entry? location = some (.link id target))
    (absolute : ∀ here, startOf target here = [])
    (more : List String) :
    ¬ Leads tree true [] named (segmentsOf target ++ more) trail links place := by
  induction links using Nat.strong_induction_on generalizing named trail more with
  | _ links inductionHypothesis =>
      intro leads
      obtain ⟨onwardTrail, onwardLinks, fewer, onward⟩ :=
        (arrives.append more).leads_onward isLink leads
      rw [absolute] at onward
      exact inductionHypothesis onwardLinks fewer (left ++ more) onward

end FileGrants.FileTree
