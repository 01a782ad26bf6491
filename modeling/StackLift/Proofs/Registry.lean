import Mathlib.Tactic.Choose
import StackLift.Proofs.Map
import StackLift.Proofs.Revision.Accepted
import StackLift.Registry

/-!
# Registries over Time

A registry that is asked for one revision after the other and turns some of them down.

A request either enters a revision under a name that was free or leaves the registry
alone, and a bound name is a reason to be turned down before anything else is. So what a
registry knows in the end are the revisions it began with and those of the requests that
have succeeded, each under its own name. No name is ever given twice: the second request
for it fails, and with it the chance that a later revision takes the place of an earlier
one.

A definition has its name looked at twice, before it is read and when its revision is
entered. The second look finds what the first one found, because the revision of a
definition has the name of the definition.

## Main definitions

* `Registry.Request`: What a registry is asked to enter.
* `Registry.after`: The registry after some requests.
* `Registry.admitted`: The revisions that have been entered in the meantime.

## Theorems

* `change_cases`: The three ways in which a request may end.
* `get_after_eq_ok_iff`: What is bound after some requests.
* `get_builtins_eq_ok_iff`, `isBound_builtins`: What is bound in the beginning.
* `on_change`: What one request does.
* `extends_after`: A registry only ever grows.
-/

namespace StackLift

namespace Registry

/-- What a registry is asked to enter. -/
inductive Request where
  /-- The revision that the definition describes. -/
  | register (d : Definition)
  /-- The revision as such. -/
  | insert (r : Revision)

namespace Request

/-- The name under which the revision is to be entered. -/
def name : Request → String
  | register d => d.name
  | insert r => r.name

/-- The revision to be entered, or what is wrong with its definition. -/
def revision : Request → Except RevisionError Revision
  | register d => d.revision
  | insert r => .ok r

/-- What is done to the registry. -/
def change : Request → Change Revision
  | register d => .define d
  | insert r => .enter r

end Request

/-- The registry after some requests, whether they succeed or not. -/
def after (g : Registry) (qs : List Request) : Registry :=
  qs.foldl (fun g q => (q.change.on g).2) g

/-- The revisions that have been entered after some requests, the first one first. -/
def admitted (g : Registry) : List Request → List Revision
  | [] => []
  | q :: qs => match q.change.on g with
    | (.ok r, g) => r :: admitted g qs
    | (.error _, g) => admitted g qs

variable {g : Registry} {n : String} {r : Revision}

theorem name_of_revision {d : Definition} (hd : d.revision = .ok r) : r.name = d.name := by
  unfold Definition.revision at hd
  cases hr : Revision.ofDefinition d with
  | error e =>
      rw [hr] at hd
      contradiction
  | ok r' =>
      rw [hr] at hd
      cases hd
      exact Revision.name_eq_definition hr

theorem ne_alreadyRegistered {q : Request} {e : RevisionError} (he : q.revision = .error e)
    (n : String) : e ≠ .alreadyRegistered n := by
  cases q with
  | insert r => contradiction
  | register d =>
      rw [Request.revision, Definition.revision] at he
      cases hr : Revision.ofDefinition d with
      | error reason =>
          rw [hr] at he
          cases he
          simp only [ne_eq, reduceCtorEq, not_false_eq_true]
      | ok r =>
          rw [hr] at he
          contradiction

theorem get_eq_ok_iff : g.get n = .ok r ↔ g.revisions[n]? = some r := by
  unfold get
  cases g.revisions[n]? with
  | none => simp only [reduceCtorEq]
  | some r' => simp only [Except.ok.injEq, Option.some.injEq]

theorem isBound_iff : g.isBound n = true ↔ ∃ r, g.get n = .ok r := by
  simp only [get_eq_ok_iff, isBound, Std.ExtTreeMap.contains_eq_isSome_getElem?,
    Option.isSome_iff_exists]

theorem get_eq_error_iff : g.get n = .error (.notRegistered n) ↔ g.isBound n = false := by
  rw [isBound, Std.ExtTreeMap.contains_eq_isSome_getElem?]
  unfold get
  cases g.revisions[n]? with
  | none => simp only [Option.isSome_none]
  | some r' => simp only [reduceCtorEq, Option.isSome_some, Bool.true_eq_false]

theorem mem_names_iff : n ∈ g.names ↔ ∃ r, g.get n = .ok r := by
  rw [names, Std.ExtTreeMap.mem_keys, ← isBound_iff]
  rfl

theorem pairwise_names (g : Registry) : g.names.Pairwise (· < ·) := by
  have hordered := g.revisions.ordered_keys
  refine hordered.imp fun hab => ?_
  exact compareOfLessAndEq_eq_lt.mp hab

theorem get_empty (n : String) : (∅ : Registry).get n = .error (.notRegistered n) :=
  get_eq_error_iff.mpr Std.ExtTreeMap.contains_empty

/-- A revision that is entered is found under its name, and nothing else changes. -/
theorem get_insert (g : Registry) (r : Revision) (n : String) :
    (⟨g.revisions.insert r.name r⟩ : Registry).get n = if n = r.name then .ok r else g.get n := by
  unfold get
  rw [Std.ExtTreeMap.getElem?_insert]
  by_cases hn : n = r.name
  · rw [if_pos hn, if_pos (Std.compare_eq_iff_eq.mpr hn.symm)]
  · rw [if_neg hn, if_neg fun hc => hn (Std.compare_eq_iff_eq.mp hc).symm]

theorem on_get_bind {α : Type} (f : Registry → Change α) (g : Registry) :
    Change.on (MonadState.get >>= f) g = (f g).on g := rfl

theorem on_enter (r : Revision) (g : Registry) :
    (Change.enter r).on g =
      if g.isBound r.name then (.error (.alreadyRegistered r.name), g)
      else (.ok r, ⟨g.revisions.insert r.name r⟩) := by
  unfold Change.enter
  rw [on_get_bind]
  by_cases h : g.isBound r.name = true
  · rw [if_pos h, if_pos h]
    rfl
  · rw [if_neg h, if_neg h]
    rfl

theorem on_define (d : Definition) (g : Registry) :
    (Change.define d).on g =
      if g.isBound d.name then (.error (.alreadyRegistered d.name), g)
      else match d.revision with
        | .ok r => (Change.enter r).on g
        | .error e => (.error e, g) := by
  unfold Change.define
  rw [on_get_bind]
  by_cases h : g.isBound d.name = true
  · rw [if_pos h, if_pos h]
    rfl
  · rw [if_neg h, if_neg h]
    cases d.revision with
    | ok r => rfl
    | error e => rfl

/-- The three ways in which a request ends. Its name is bound, or else there is something
    wrong with its definition, or else its revision is entered. -/
theorem change_cases (q : Request) (g : Registry) :
    (g.isBound q.name = true ∧ q.change.on g = (.error (.alreadyRegistered q.name), g)) ∨
    (g.isBound q.name = false ∧
      ∃ e, q.revision = .error e ∧ q.change.on g = (.error e, g)) ∨
    (g.isBound q.name = false ∧ ∃ r, q.revision = .ok r ∧ r.name = q.name ∧
      q.change.on g = (.ok r, ⟨g.revisions.insert r.name r⟩)) := by
  by_cases h : g.isBound q.name = true
  · left
    cases q with
    | register d => exact ⟨h, (on_define d g).trans (if_pos h)⟩
    | insert r => exact ⟨h, (on_enter r g).trans (if_pos h)⟩
  · right
    have hfree := Bool.eq_false_iff.mpr h
    cases q with
    | insert r => exact Or.inr ⟨hfree, r, rfl, rfl, (on_enter r g).trans (if_neg h)⟩
    | register d =>
        have hon := (on_define d g).trans (if_neg h)
        cases hd : d.revision with
        | error e =>
            rw [hd] at hon
            exact Or.inl ⟨hfree, e, hd, hon⟩
        | ok r =>
            rw [hd] at hon
            -- The revision has the name of its definition, so this name is free too.
            have hname : r.name = d.name := name_of_revision hd
            have hfree' : ¬g.isBound r.name = true := hname ▸ h
            exact Or.inr ⟨hfree, r, hd, hname, hon.trans ((on_enter r g).trans (if_neg hfree'))⟩

/-- A definition is turned down if its name is bound, and for what is wrong with it
    otherwise. -/
theorem register_eq (g : Registry) (d : Definition) :
    g.register d =
      if g.isBound d.name then .error (.alreadyRegistered d.name)
      else d.revision.map fun r => ⟨g.revisions.insert d.name r⟩ := by
  rw [register, Change.outcome, on_define]
  by_cases h : g.isBound d.name = true
  · rw [if_pos h, if_pos h]
  · rw [if_neg h, if_neg h]
    cases hd : d.revision with
    | error e => rfl
    | ok r =>
        have hname := name_of_revision hd
        simp only [on_enter, hname, if_neg h]
        rfl

/-- What is bound after some requests was bound before or has been entered in the
    meantime. -/
theorem get_after_eq_ok_iff (qs : List Request) :
    (g.after qs).get n = .ok r ↔ g.get n = .ok r ∨ (r ∈ g.admitted qs ∧ r.name = n) := by
  -- Along the requests, for whatever registry the rest of them finds.
  induction qs generalizing g with
  | nil =>
      constructor
      · intro h
        exact Or.inl h
      · rintro (h | ⟨hmem, _⟩)
        · exact h
        · exact absurd hmem List.not_mem_nil
  | cons q qs ih =>
      have hafter : g.after (q :: qs) = (q.change.on g).2.after qs := rfl
      rw [hafter, ih, admitted]
      rcases change_cases q g with ⟨_, hon⟩ | ⟨_, e, _, hon⟩ | ⟨hfree, r', _, hname, hon⟩
      -- A request that is turned down neither changes the registry nor admits anything.
      · rw [hon]
      · rw [hon]
      · simp only [hon]
        rw [get_insert, List.mem_cons]
        by_cases hn : n = r'.name
        · -- Nothing was bound to the name, so it is bound to the new revision.
          have hunbound : g.get n = .error (.notRegistered n) := by
            rw [get_eq_error_iff, hn, hname]
            exact hfree
          rw [if_pos hn, hunbound, Except.ok.injEq]
          simp only [reduceCtorEq, false_or]
          constructor
          · rintro (rfl | ⟨hmem, hr⟩)
            · exact ⟨Or.inl rfl, hn.symm⟩
            · exact ⟨Or.inr hmem, hr⟩
          · rintro ⟨rfl | hmem, hr⟩
            · exact Or.inl rfl
            · exact Or.inr ⟨hmem, hr⟩
        · rw [if_neg hn]
          constructor
          · rintro (h | ⟨hmem, hr⟩)
            · exact Or.inl h
            · exact Or.inr ⟨Or.inr hmem, hr⟩
          · rintro (h | ⟨rfl | hmem, hr⟩)
            · exact Or.inl h
            · exact absurd hr.symm hn
            · exact Or.inr ⟨hmem, hr⟩

/-- A registry of the built-in revisions begins with each of them under its name. -/
theorem get_builtins_eq_ok_iff :
    builtins.get n = .ok r ↔ ∃ b : BuiltinRevision, b.revision = .ok r ∧ r.name = n := by
  choose f hf using BuiltinRevision.exists_revision
  have hname : ∀ b, (f b).name = b.name := fun b => Revision.name_eq_definition (hf b)
  -- None of them is left out, since they are accepted.
  have hlist : builtins.revisions =
      .ofList (BuiltinRevision.all.map fun b => (b.name, f b)) := by
    simp only [builtins, BuiltinRevision.revision, hf, Except.toOption, Option.map_some,
      List.filterMap_eq_map']
  have hdistinct : (BuiltinRevision.all.map fun b => (b.name, f b)).Pairwise
      fun x y => ¬compare x.1 y.1 = .eq := by
    have hnames : BuiltinRevision.all.Pairwise fun b c => ¬compare b.name c.name = .eq := by
      decide
    exact List.pairwise_map.mpr hnames
  rw [get_eq_ok_iff, hlist, getElem?_ofList_eq_some_iff hdistinct, List.mem_map]
  constructor
  · rintro ⟨b, _, hb⟩
    cases hb
    exact ⟨b, hf b, hname b⟩
  · rintro ⟨b, hb, rfl⟩
    cases (hf b).symm.trans hb
    have hmem : b ∈ BuiltinRevision.all := by cases b <;> decide
    exact ⟨b, hmem, by rw [hname]⟩

theorem get_builtins (b : BuiltinRevision) :
    ∃ r, b.revision = .ok r ∧ builtins.get b.name = .ok r := by
  rcases b.exists_revision with ⟨r, hr⟩
  have hname : r.name = b.name := Revision.name_eq_definition hr
  exact ⟨r, hr, get_builtins_eq_ok_iff.mpr ⟨b, hr, hname⟩⟩

theorem isBound_builtins : builtins.isBound n = true ↔ ∃ b : BuiltinRevision, b.name = n := by
  rw [isBound_iff]
  constructor
  · rintro ⟨r, hr⟩
    rcases get_builtins_eq_ok_iff.mp hr with ⟨b, hb, rfl⟩
    exact ⟨b, (Revision.name_eq_definition hb).symm⟩
  · rintro ⟨b, rfl⟩
    rcases get_builtins b with ⟨r, _, hr⟩
    exact ⟨r, hr⟩

/-- One request. It fails for its name if that is bound, whatever it is that should be
    entered, and else comes out as its definition does. If it fails, the registry is the same
    as before, and if it succeeds, one name more is bound. -/
theorem on_change (q : Request) (g : Registry) :
    let x := (q.change.on g).1
    let g' := (q.change.on g).2
    (x = .error (.alreadyRegistered q.name) ↔ q.name ∈ g.names) ∧
    (q.name ∉ g.names → x = q.revision) ∧
    (∀ e, x = .error e → g' = g) ∧
    ∀ r, x = .ok r → r.name = q.name ∧ q.name ∉ g.names ∧
      ∀ n, g'.get n = if n = r.name then .ok r else g.get n := by
  intro x g'
  have hbound : q.name ∈ g.names ↔ g.isBound q.name = true :=
    mem_names_iff.trans isBound_iff.symm
  rcases change_cases q g with ⟨hq, hon⟩ | ⟨hq, e, he, hon⟩ | ⟨hq, r, hr, hname, hon⟩
  -- The name is bound, and whatever stands in the definition is not looked at.
  · have hmem : q.name ∈ g.names := hbound.mpr hq
    have hx : x = .error (.alreadyRegistered q.name) := congrArg (·.1) hon
    refine ⟨⟨fun _ => hmem, fun _ => hx⟩, fun hfree => absurd hmem hfree, ?_, ?_⟩
    · intro e _
      exact congrArg (·.2) hon
    · intro r hr
      rw [hx] at hr
      contradiction
  -- The name is free and the definition is faulty.
  · have hfree : q.name ∉ g.names := fun hc => Bool.eq_false_iff.mp hq (hbound.mp hc)
    have hx : x = .error e := congrArg (·.1) hon
    refine ⟨⟨fun hc => ?_, fun hc => absurd hc hfree⟩, fun _ => hx.trans he.symm, ?_, ?_⟩
    · cases hx.symm.trans hc
      exact absurd rfl (ne_alreadyRegistered he q.name)
    · intro _ _
      exact congrArg (·.2) hon
    · intro r hr
      rw [hx] at hr
      contradiction
  -- The name is free and there is a revision.
  · have hfree : q.name ∉ g.names := fun hc => Bool.eq_false_iff.mp hq (hbound.mp hc)
    have hx : x = .ok r := congrArg (·.1) hon
    have hg' : g' = ⟨g.revisions.insert r.name r⟩ := congrArg (·.2) hon
    refine ⟨⟨fun hc => ?_, fun hc => absurd hc hfree⟩, fun _ => hx.trans hr.symm, ?_, ?_⟩
    · rw [hx] at hc
      contradiction
    · intro e he
      rw [hx] at he
      contradiction
    · intro r' hr'
      cases hx.symm.trans hr'
      refine ⟨hname, hfree, fun n => ?_⟩
      rw [hg', get_insert]

/-- A registry begins with the built-in revisions or with nothing. -/
theorem get_eq_ok_iff_of_beginning (h : g = ∅ ∨ g = builtins) :
    g.get n = .ok r ↔ r.name = n ∧ g = builtins ∧ ∃ b : BuiltinRevision, b.revision = .ok r := by
  rcases h with rfl | rfl
  · rw [get_empty]
    constructor
    · intro h
      contradiction
    · rintro ⟨hn, hempty, b, hb⟩
      -- If there were no built-in revisions, none of them could be found.
      have hfound := get_builtins_eq_ok_iff.mpr ⟨b, hb, hn⟩
      rw [← hempty, get_empty] at hfound
      contradiction
  · rw [get_builtins_eq_ok_iff]
    constructor
    · rintro ⟨b, hb, hn⟩
      exact ⟨hn, rfl, b, hb⟩
    · rintro ⟨hn, _, b, hb⟩
      exact ⟨b, hb, hn⟩

/-- A registry only ever grows. It begins empty or with the built-in revisions, and after
    any number of requests it binds those and the revisions that have been entered, each
    under its own name, and keeps them whatever else is asked for. -/
theorem extends_after {g₀ : Registry} (h₀ : g₀ = ∅ ∨ g₀ = builtins) (qs : List Request) :
    let g := g₀.after qs
    (∀ n r, g.get n = .ok r ↔ r.name = n ∧
      (r ∈ g₀.admitted qs ∨ g₀ = builtins ∧ ∃ b : BuiltinRevision, b.revision = .ok r)) ∧
    (∀ n r qs', g.get n = .ok r → (g₀.after (qs ++ qs')).get n = .ok r) ∧
    g.names.Pairwise (· < ·) ∧ (∀ n, n ∈ g.names ↔ ∃ r, g.get n = .ok r) ∧
    ∀ q : Request,
      let x := (q.change.on g).1
      let g' := (q.change.on g).2
      (x = .error (.alreadyRegistered q.name) ↔ q.name ∈ g.names) ∧
      (q.name ∉ g.names → x = q.revision) ∧
      (∀ e, x = .error e → g' = g) ∧
      ∀ r, x = .ok r → r.name = q.name ∧ q.name ∉ g.names ∧
        ∀ n, g'.get n = if n = r.name then .ok r else g.get n := by
  intro g
  refine ⟨fun n r => ?_, fun n r qs' h => ?_, pairwise_names g, fun n => mem_names_iff,
    fun q => on_change q g⟩
  · rw [get_after_eq_ok_iff, get_eq_ok_iff_of_beginning h₀, and_or_left, or_comm,
      and_comm (b := r.name = n)]
  · have hafter : g₀.after (qs ++ qs') = g.after qs' := List.foldl_append
    rw [hafter, get_after_eq_ok_iff]
    exact Or.inl h

/-- A definition under a new name, and then one that has no registers under the same
    name. -/
theorem extends_after_twice :
    let d : Definition := { BuiltinRevision.tigress2.definition with name := "custom" }
    let faulty : Definition := { d with registers := [] }
    let qs : List Request := [.register d, .register faulty]
    ∃ r e, d.revision = .ok r ∧ faulty.revision = .error e ∧
      ((∅ : Registry).after [.register d]).get "custom" = .ok r ∧
      ((Change.define faulty).on ((∅ : Registry).after [.register d])).1 =
        .error (.alreadyRegistered "custom") ∧
      ((∅ : Registry).after qs).get "custom" = .ok r := by
  intro d faulty qs
  have hr : ∃ r, d.revision = .ok r := by
    cases hd : d.revision with
    | ok r => exact ⟨r, rfl⟩
    | error e =>
        have hok : d.revision.isOk = true := by decide
        rw [hd] at hok
        contradiction
  have he : ∃ e, faulty.revision = .error e := by
    cases hd : faulty.revision with
    | error e => exact ⟨e, rfl⟩
    | ok r =>
        have hok : faulty.revision.isOk = false := by decide
        rw [hd] at hok
        contradiction
  rcases hr with ⟨r, hr⟩
  rcases he with ⟨e, he⟩
  have hname : r.name = "custom" := name_of_revision hr
  -- Nothing is bound in the beginning, so the first request succeeds.
  rcases extends_after (Or.inl rfl) [] with ⟨hbegin, _, _, hnames, hstep⟩
  have hfree : "custom" ∉ ((∅ : Registry).after []).names := by
    rw [hnames]
    rintro ⟨r, hr⟩
    cases (get_empty "custom").symm.trans hr
  have hfirst : ((Request.register d).change.on ∅).1 = .ok r :=
    ((hstep (.register d)).2.1 hfree).trans hr
  have hadmitted : (∅ : Registry).admitted [.register d] = [r] := by
    rw [admitted]
    rcases hon : (Request.register d).change.on ∅ with ⟨x, g'⟩
    rw [hon] at hfirst
    cases hfirst
    rfl
  rcases extends_after (Or.inl rfl) [.register d] with ⟨hget, hkeeps, _, hnames, hstep⟩
  have hbound := (hget "custom" r).mpr ⟨hname, Or.inl (hadmitted ▸ List.mem_singleton_self r)⟩
  refine ⟨r, e, hr, he, hbound, ?_, ?_⟩
  · exact (hstep (.register faulty)).1.mpr ((hnames _).mpr ⟨r, hbound⟩)
  · exact hkeeps "custom" r [.register faulty] hbound

end Registry

end StackLift
