import FileGrants.Proofs.Manager.Issuing

/-!
Contract: who issued the temporary grant by which an application may persist a path.

Owns:
- that what a turn issues does not depend on what is held;
- that leaving out the turns of some callers takes away what they issued, and nothing else;
- when an application is entitled by what another one issued;
- a turn by which an application entitles itself.

Does not own: what the grants are good for.

The temporary grants tell for whom they are and not who issued them, and a request to issue some
may name its own caller. Who issued a grant is therefore a question about the turns: it comes from
another application exactly if it is still there after the same turns without those of the
application itself.
-/

namespace FileGrants

namespace Manager

variable
  {manager : Manager}
  {files : FileTree}
  {now : String}
  {held other : Holdings}
  {app path : String}
  {mode : AccessMode}
  {turns : List Turn}

/-! ## What a turn issues -/

/-- How a request to issue grants ends does not depend on what is held. -/
theorem reply_perform_grant (target : String) (policies : List UriPolicy) :
    (manager.perform files now held (.grant target policies)).1 =
      (manager.perform files now other (.grant target policies)).1 := by
  unfold perform
  cases manager.admits (.grant target policies) with
  | error error => rfl
  | ok _ =>
      simp only [work, grant]
      cases unresolvable policies <;> rfl

theorem Turn.opens_iff {turn : Turn} :
    turn.Opens held app path mode ↔ turn.Opens other app path mode := by
  refine exists_congr fun policy => and_congr_left' ?_
  obtain ⟨manager, files, now, request⟩ := turn
  constructor
  · rintro ⟨⟨policies, rfl, member⟩, permitted, succeeds⟩
    exact ⟨⟨policies, rfl, member⟩, permitted, (reply_perform_grant app policies).trans succeeds⟩
  · rintro ⟨⟨policies, rfl, member⟩, permitted, succeeds⟩
    exact ⟨⟨policies, rfl, member⟩, permitted, (reply_perform_grant app policies).trans succeeds⟩

/-! ## Who issued it -/

/-- Whether one of some turns, by a caller of a kind, issued a grant that covers a path. -/
def IssuedBy
    (kind : String → Prop)
    (held : Holdings)
    (turns : List Turn)
    (app path : String)
    (mode : AccessMode) : Prop :=
  ∃ earlier turn later, turns = earlier ++ turn :: later
    ∧ kind turn.manager.caller.appId
    ∧ turn.Opens (heldAfter held earlier) app path mode

theorem issuedBy_iff_exists_mem {kind : String → Prop} :
    IssuedBy kind held turns app path mode ↔
      ∃ turn ∈ turns, kind turn.manager.caller.appId ∧ turn.Opens held app path mode := by
  constructor
  · rintro ⟨earlier, turn, later, rfl, ofKind, opens⟩
    exact ⟨turn, by simp, ofKind, Turn.opens_iff.mp opens⟩
  · rintro ⟨turn, member, ofKind, opens⟩
    obtain ⟨earlier, later, split⟩ := List.append_of_mem member
    exact ⟨earlier, turn, later, split, ofKind, Turn.opens_iff.mp opens⟩

/-- The same as for `covers_heldAfter_iff`, without the order of the turns. -/
theorem covers_heldAfter_iff_exists_mem :
    (heldAfter held turns).temporary.covers app path mode = true ↔
      held.temporary.covers app path mode = true
        ∨ ∃ turn ∈ turns, turn.Opens held app path mode := by
  have issued := @issuedBy_iff_exists_mem held app path mode turns fun _ => True
  simp only [IssuedBy, true_and] at issued
  rw [covers_heldAfter_iff, issued]

/-- After the turns of callers of a kind a path is covered that was covered before, or for which
one of these callers issued a grant, whether or not the other turns are taken. -/
theorem covers_heldAfter_filter_iff (kind : String → Prop) [DecidablePred kind] :
    (heldAfter held (turns.filter fun turn => kind turn.manager.caller.appId)).temporary.covers
        app path mode = true ↔
      held.temporary.covers app path mode = true ∨ IssuedBy kind held turns app path mode := by
  rw [covers_heldAfter_iff_exists_mem, issuedBy_iff_exists_mem]
  simp only [List.mem_filter, decide_eq_true_eq, and_assoc]

/-! ## Who entitles an application -/

/-- **Grants of others.** Let an application be entitled to a path by a temporary grant, after
turns that began without any. Another application has issued a grant that covers the path exactly
if the same grants still entitle the application when its own turns are left out. If no other one
has, nothing entitles the application without its own turns, and it has issued the grant to itself.
This takes a turn of its own in which it may set policies and names itself, so that whoever takes
no such turn has been granted the path by another one. -/
theorem temporaryGrant_of_another_iff
    {entitlement : Entitlement}
    {caller : AppIdentity}
    {table : GrantTable}
    (entitled :
      entitlement.source? caller path mode (heldAfter ⟨table, .empty⟩ turns).temporary =
        some .temporaryGrant) :
    let others := turns.filter fun turn => turn.manager.caller.appId ≠ caller.appId
    (IssuedBy (· ≠ caller.appId) ⟨table, .empty⟩ turns caller.appId path mode ↔
        entitlement.source? caller path mode (heldAfter ⟨table, .empty⟩ others).temporary =
          some .temporaryGrant)
      ∧ (¬ IssuedBy (· ≠ caller.appId) ⟨table, .empty⟩ turns caller.appId path mode →
        entitlement.source? caller path mode (heldAfter ⟨table, .empty⟩ others).temporary = none
          ∧ IssuedBy (· = caller.appId) ⟨table, .empty⟩ turns caller.appId path mode)
      ∧ ((∀ turn ∈ turns, turn.manager.caller.appId = caller.appId →
          turn.manager.caller.holds Permission.setSandboxPolicy = true →
          ∀ policies, turn.request ≠ .grant caller.appId policies) →
        IssuedBy (· ≠ caller.appId) ⟨table, .empty⟩ turns caller.appId path mode) := by
  intro others
  obtain ⟨alone, covered⟩ := Entitlement.source?_eq_temporaryGrant_iff.mp entitled
  have others_iff :
      (heldAfter ⟨table, .empty⟩ others).temporary.covers caller.appId path mode = true ↔
        IssuedBy (· ≠ caller.appId) ⟨table, .empty⟩ turns caller.appId path mode := by
    rw [covers_heldAfter_filter_iff (· ≠ caller.appId)]
    simp
  -- whoever issued it, some turn did
  obtain ⟨turn, member, opens⟩ : ∃ turn ∈ turns,
      turn.Opens ⟨table, .empty⟩ caller.appId path mode := by
    rw [covers_heldAfter_iff_exists_mem] at covered
    simpa using covered
  refine ⟨?_, fun noOther => ⟨?_, ?_⟩, fun neverItself => ?_⟩
  · rw [Entitlement.source?_eq_temporaryGrant_iff, others_iff, and_iff_right alone]
  · rw [Entitlement.source?_eq_or, alone, if_neg (others_iff.not.mpr noOther)]
    rfl
  · refine issuedBy_iff_exists_mem.mpr ⟨turn, member, ?_, opens⟩
    by_contra foreign
    exact noOther (issuedBy_iff_exists_mem.mpr ⟨turn, member, foreign, opens⟩)
  · refine issuedBy_iff_exists_mem.mpr ⟨turn, member, ?_, opens⟩
    intro own
    obtain ⟨policy, ⟨⟨policies, asks, -⟩, permitted, -⟩, -⟩ := opens
    exact neverItself turn member own permitted policies asks

/-- A photo that the picker issued to the gallery was issued by another application, as the gallery
took no turn of its own. -/
theorem photo_granted_by_picker :
    gallery.entitlement.source? gallery.caller "/data/media/Photo/1" .read
        (heldAfter ⟨⟨[1, 2], true, []⟩, .empty⟩ pickerTurns).temporary = some .temporaryGrant
      ∧ IssuedBy (· ≠ "gallery") ⟨⟨[1, 2], true, []⟩, .empty⟩ pickerTurns "gallery"
        "/data/media/Photo/1" .read := by
  have entitled : gallery.entitlement.source? gallery.caller "/data/media/Photo/1" .read
      (heldAfter ⟨⟨[1, 2], true, []⟩, .empty⟩ pickerTurns).temporary = some .temporaryGrant := by
    decide +kernel
  obtain ⟨-, -, granted⟩ := temporaryGrant_of_another_iff entitled
  have foreign : ∀ turn ∈ pickerTurns, turn.manager.caller.appId ≠ "gallery" := by decide +kernel
  exact ⟨entitled, granted fun turn member own => absurd own (foreign turn member)⟩

/-- An application that may set policies. -/
def diary : AppIdentity :=
  ⟨"diary", .ofList [Permission.setSandboxPolicy]⟩

/-- The diary issues itself a grant of a letter that is none of its files. -/
def diaryTurn : Turn :=
  ⟨.ofView ⟨"diary", "/data", .remapped⟩ (.ofClass .tablet) diary, ⟨[], [], 0, []⟩, "1",
    .grant "diary" [⟨"file://diary/letters/1", .write⟩]⟩

/-- Nobody but the diary takes a turn, and the diary is entitled to the letter after its turn while
it was not before. -/
theorem diary_entitles_itself :
    diaryTurn.manager.entitlement.source? diary "/letters/1" .write .empty = none
      ∧ diaryTurn.manager.entitlement.source? diary "/letters/1" .write
        (heldAfter ⟨⟨[1, 2], true, []⟩, .empty⟩ [diaryTurn]).temporary = some .temporaryGrant
      ∧ ¬ IssuedBy (· ≠ "diary") ⟨⟨[1, 2], true, []⟩, .empty⟩ [diaryTurn] "diary"
        "/letters/1" .write := by
  refine ⟨by decide +kernel, by decide +kernel, ?_⟩
  rw [issuedBy_iff_exists_mem]
  rintro ⟨turn, member, foreign, -⟩
  obtain rfl := List.mem_singleton.mp member
  exact foreign rfl

end Manager

end FileGrants
