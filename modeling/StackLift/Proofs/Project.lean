import Mathlib.Data.List.Induction
import StackLift.Project.Basic
import StackLift.Proofs.Except
import StackLift.Proofs.Registry
import StackLift.Proofs.Revision.Json
import StackLift.Proofs.Text.Utf8

/-!
# Revisions of a Project

What a project knows besides the built-in revisions, and what keeps it from knowing anything.

A project has the paths of some definition files under the names by which it wants to know
their revisions. The files are read in the order of these keys, and what a file defines is
entered under the key, whatever the file calls it. So two files may use the same name, and the
name of a built-in revision too, as long as the keys are others.

Each file is met by a registry that knows what the files before it have defined. That would
make it hard to say what is wrong with a file as such, were it not that no key occurs twice:
what is bound when a file is read are the names of the built-in revisions and smaller keys, so
a key is found bound only if it is the name of a built-in revision. Whether a file is faulty,
and in which way, can therefore be seen from the file and its key alone. The name is looked at
after the file has been read and before the definition is checked.

## Main definitions

* `Project.Holds`: The definition in a file.
* `Project.Gives`: A file gives a revision under a key.
* `Project.Faulty`: A file does not, and why.
* `Project.Knows`: A registry knows the built-in revisions and those of some files.

## Theorems

* `exists_gives_or_faulty`: A file gives a revision, or there is something wrong with it.
* `enter_of_gives`, `enter_of_faulty`: What comes of one file.
* `knows_of_enterAll`: What is known when some files have been read.
* `exists_least_faulty`: Of the faulty files the one with the smallest key counts.
* `registry_knows_files`: What a project knows, or which file is at fault.
-/

namespace StackLift

namespace Project

variable {files : String → Except FileError (List UInt8)} {root file key : String}

/-- The file holds the definition. -/
def Holds (files : String → Except FileError (List UInt8)) (file : String) (d : Definition) :
    Prop :=
  ∃ bytes, files file = .ok bytes ∧ Definition.decoder.run (.ofBytes bytes) = .ok d

/-- The file gives the revision under the key. -/
structure Gives (files : String → Except FileError (List UInt8)) (file key : String)
    (r : Revision) : Prop where
  /-- The definition is accepted when it has the key for its name. -/
  definition : ∃ d, Holds files file d ∧ Revision.ofDefinition { d with name := key } = .ok r
  /-- No built-in revision has that name. -/
  free : ∀ b : BuiltinRevision, b.name ≠ key

/-- What is wrong with a file, in the order in which it is found out. -/
inductive Faulty (files : String → Except FileError (List UInt8)) (file key : String) :
    Failure → Prop where
  /-- There is no such file, or it cannot be read. -/
  | file {e : FileError} : files file = .error e → Faulty files file key (.file e)
  /-- The file holds no definition. -/
  | document {bytes : List UInt8} {e : Json.Refusal} :
      files file = .ok bytes → Definition.decoder.run (.ofBytes bytes) = .error e →
      Faulty files file key (.document e)
  /-- The key is the name of a built-in revision. -/
  | bound {d : Definition} :
      Holds files file d → (∃ b : BuiltinRevision, b.name = key) →
      Faulty files file key (.revision (.alreadyRegistered key))
  /-- The definition contradicts itself. -/
  | inconsistent {d : Definition} {e : Inconsistency} :
      Holds files file d → (∀ b : BuiltinRevision, b.name ≠ key) →
      Revision.ofDefinition { d with name := key } = .error e →
      Faulty files file key (.revision (.inconsistent key e))

/-- A registry knows the built-in revisions and those that the files of some entries give,
    and nothing else. -/
structure Knows (files : String → Except FileError (List UInt8)) (root : String)
    (xs : List (String × String)) (g : Registry) : Prop where
  given : ∀ x ∈ xs, ∃ r, Gives files (Path.within root x.2) x.1 r ∧ g.get x.1 = .ok r
  others : ∀ n, n ∉ xs.map (·.1) → g.get n = Registry.builtins.get n

/-- The registry with what the file gives under the key. -/
def enter (files : String → Except FileError (List UInt8)) (file key : String) (g : Registry) :
    Except Failure Registry :=
  (files file).mapError .file >>= addDefinition g key

theorem ofBytes_bytes (s : String) : Json.Document.ofBytes (Utf8.bytes s) = .ofText s := by
  rw [Json.Document.ofBytes, Utf8.symbols_bytes, Json.Document.ofText]

/-- A definition that has been written to a file is held by it. -/
theorem holds_of_write {d : Definition} {l : Json.Layout}
    (h : files file = .ok (Utf8.bytes (d.toJson.write l))) : Holds files file d := by
  have hread : Definition.decoder.run (.ofBytes (Utf8.bytes (d.toJson.write l))) = .ok d := by
    rw [ofBytes_bytes]
    exact Json.Decoder.run_write d.reads_toJson (by decide) d.fits_toJson l
  exact ⟨_, h, hread⟩

theorem Gives.name_eq {r : Revision} (h : Gives files file key r) : r.name = key := by
  rcases h.definition with ⟨d, _, hr⟩
  exact Revision.name_eq_definition hr

/-- A file gives a revision, or there is something wrong with it. -/
theorem exists_gives_or_faulty (files : String → Except FileError (List UInt8))
    (file key : String) :
    (∃ r, Gives files file key r) ∨ ∃ e, Faulty files file key e := by
  cases hbytes : files file with
  | error e => exact Or.inr ⟨_, .file hbytes⟩
  | ok bytes =>
      cases hd : Definition.decoder.run (.ofBytes bytes) with
      | error e => exact Or.inr ⟨_, .document hbytes hd⟩
      | ok d =>
          have hholds : Holds files file d := ⟨bytes, hbytes, hd⟩
          by_cases hkey : ∃ b : BuiltinRevision, b.name = key
          · exact Or.inr ⟨_, .bound hholds hkey⟩
          · have hfree : ∀ b : BuiltinRevision, b.name ≠ key := not_exists.mp hkey
            cases hr : Revision.ofDefinition { d with name := key } with
            | error e => exact Or.inr ⟨_, .inconsistent hholds hfree hr⟩
            | ok r => exact Or.inl ⟨r, ⟨d, hholds, hr⟩, hfree⟩

theorem enter_of_bytes {bytes : List UInt8} (h : files file = .ok bytes) (g : Registry) :
    enter files file key g = addDefinition g key bytes := by
  rw [enter, h]
  rfl

theorem enter_of_holds {d : Definition} (h : Holds files file d) (g : Registry) :
    enter files file key g = (g.register { d with name := key }).mapError .revision := by
  rcases h with ⟨bytes, hbytes, hd⟩
  rw [enter_of_bytes hbytes, addDefinition, hd]
  rfl

section Enter

-- Nothing is in the way of the key but the built-in revisions.
variable {g : Registry} (hbound : g.isBound key = true ↔ ∃ b : BuiltinRevision, b.name = key)

include hbound

/-- A revision that a file gives is entered. -/
theorem enter_of_gives {r : Revision} (hr : Gives files file key r) :
    enter files file key g = .ok ⟨g.revisions.insert r.name r⟩ := by
  rcases hr.definition with ⟨d, hd, hok⟩
  have hkey : ¬g.isBound key = true := by
    rw [hbound, not_exists]
    exact hr.free
  rw [enter_of_holds hd, Registry.register_eq, if_neg hkey, Definition.revision, hok, hr.name_eq]
  rfl

/-- A faulty file is turned down for its fault. -/
theorem enter_of_faulty {e : Failure} (he : Faulty files file key e) :
    enter files file key g = .error e := by
  cases he with
  | file hbytes =>
      rw [enter, hbytes]
      rfl
  | document hbytes hd =>
      rw [enter_of_bytes hbytes, addDefinition, hd]
      rfl
  | bound hd hkey =>
      rw [enter_of_holds hd, Registry.register_eq, if_pos (hbound.mpr hkey)]
      rfl
  | inconsistent hd hfree he =>
      have hkey : ¬g.isBound key = true := by
        rw [hbound, not_exists]
        exact hfree
      rw [enter_of_holds hd, Registry.register_eq, if_neg hkey, Definition.revision, he]
      rfl

end Enter

/-- A faulty file gives no revision. -/
theorem Faulty.not_gives {e : Failure} (he : Faulty files file key e) :
    ¬∃ r, Gives files file key r := by
  rintro ⟨r, hr⟩
  have hgiven := enter_of_gives Registry.isBound_builtins hr
  have hfault := enter_of_faulty Registry.isBound_builtins he
  cases hgiven.symm.trans hfault

/-- A file is at fault in one way only. -/
theorem Faulty.unique {e e' : Failure} (he : Faulty files file key e)
    (he' : Faulty files file key e') : e = e' := by
  have hfault := enter_of_faulty Registry.isBound_builtins he
  have hfault' := enter_of_faulty Registry.isBound_builtins he'
  cases hfault.symm.trans hfault'
  rfl

variable {xs : List (String × String)} {g : Registry}

theorem knows_builtins : Knows files root [] Registry.builtins :=
  ⟨fun _ hx => absurd hx List.not_mem_nil, fun _ _ => rfl⟩

theorem Knows.isBound_iff (h : Knows files root xs g) (hkey : key ∉ xs.map (·.1)) :
    g.isBound key = true ↔ ∃ b : BuiltinRevision, b.name = key := by
  rw [← Registry.isBound_builtins, Registry.isBound_iff, Registry.isBound_iff, h.others key hkey]

/-- What is known when a revision has been entered under a new key. -/
theorem Knows.insert (h : Knows files root xs g) {x : String × String}
    (hx : x.1 ∉ xs.map (·.1)) {r : Revision} (hr : Gives files (Path.within root x.2) x.1 r) :
    Knows files root (xs ++ [x]) ⟨g.revisions.insert r.name r⟩ := by
  have hget (n : String) : (⟨g.revisions.insert r.name r⟩ : Registry).get n =
      if n = x.1 then .ok r else g.get n := by
    rw [Registry.get_insert, hr.name_eq]
  constructor
  · intro y hy
    rcases List.mem_append.mp hy with hy | hy
    · rcases h.given y hy with ⟨r', hr', hget'⟩
      have hne : y.1 ≠ x.1 := fun heq => hx (heq ▸ List.mem_map_of_mem hy)
      exact ⟨r', hr', by rw [hget, if_neg hne, hget']⟩
    · cases List.mem_singleton.mp hy
      exact ⟨r, hr, by rw [hget, if_pos rfl]⟩
  · intro n hn
    rw [List.map_append, List.mem_append, not_or, List.map_singleton, List.mem_singleton] at hn
    rw [hget, if_neg hn.2, h.others n hn.1]

/-- The registry with what the files of some entries give. -/
def enterAll (files : String → Except FileError (List UInt8)) (root : String)
    (xs : List (String × String)) : Except Failure Registry :=
  xs.foldlM (fun g x => enter files (Path.within root x.2) x.1 g) Registry.builtins

theorem enterAll_snoc (xs : List (String × String)) (x : String × String) :
    enterAll files root (xs ++ [x]) =
      enterAll files root xs >>= enter files (Path.within root x.2) x.1 := by
  unfold enterAll
  rw [List.foldlM_append]
  simp only [List.foldlM_cons, List.foldlM_nil, bind_pure]

/-- What is known when some files have been read. -/
theorem knows_of_enterAll (hxs : (xs.map (·.1)).Nodup) (h : enterAll files root xs = .ok g) :
    Knows files root xs g := by
  -- Along the entries, and by what the last of them adds.
  induction xs using List.reverseRecOn generalizing g with
  | nil =>
      cases h
      exact knows_builtins
  | append_singleton xs x ih =>
      rw [enterAll_snoc] at h
      rcases bind_eq_ok_iff.mp h with ⟨g', hg', hx⟩
      rw [List.map_append, List.map_singleton, List.nodup_append] at hxs
      have hnew : x.1 ∉ xs.map (·.1) := fun hmem =>
        hxs.2.2 _ hmem _ (List.mem_singleton_self _) rfl
      have hknows := ih hxs.1 hg'
      have hbound := hknows.isBound_iff hnew
      rcases exists_gives_or_faulty files (Path.within root x.2) x.1 with ⟨r, hr⟩ | ⟨e, he⟩
      · cases hx.symm.trans (enter_of_gives hbound hr)
        exact hknows.insert hnew hr
      · cases hx.symm.trans (enter_of_faulty hbound he)

/-- It is the first faulty file that counts. -/
theorem exists_of_enterAll_eq_error (hxs : (xs.map (·.1)).Nodup) {e : Failure}
    (h : enterAll files root xs = .error e) :
    ∃ before x behind, xs = before ++ x :: behind ∧
      (∀ y ∈ before, ∃ r, Gives files (Path.within root y.2) y.1 r) ∧
      Faulty files (Path.within root x.2) x.1 e := by
  rcases exists_of_foldlM_eq_error h with ⟨before, x, behind, g, rfl, hbefore, hx⟩
  rw [List.map_append, List.map_cons, List.nodup_append] at hxs
  have hnew : x.1 ∉ before.map (·.1) := fun hmem =>
    hxs.2.2 _ hmem _ List.mem_cons_self rfl
  have hknows : Knows files root before g := knows_of_enterAll hxs.1 hbefore
  refine ⟨before, x, behind, rfl, fun y hy => ?_, ?_⟩
  · rcases hknows.given y hy with ⟨r, hr, _⟩
    exact ⟨r, hr⟩
  · have hbound := hknows.isBound_iff hnew
    rcases exists_gives_or_faulty files (Path.within root x.2) x.1 with ⟨r, hr⟩ | ⟨e', he'⟩
    · cases hx.symm.trans (enter_of_gives hbound hr)
    · cases hx.symm.trans (enter_of_faulty hbound he')
      exact he'

/-- The names that are known are those of the built-in revisions and the keys. -/
theorem Knows.mem_names_iff (h : Knows files root xs g) {n : String} :
    n ∈ g.names ↔ (∃ b : BuiltinRevision, b.name = n) ∨ n ∈ xs.map (·.1) := by
  by_cases hn : n ∈ xs.map (·.1)
  · rcases List.mem_map.mp hn with ⟨x, hx, rfl⟩
    rcases h.given x hx with ⟨r, _, hr⟩
    exact ⟨fun _ => Or.inr hn, fun _ => Registry.mem_names_iff.mpr ⟨r, hr⟩⟩
  · rw [Registry.mem_names_iff, ← Registry.isBound_iff, h.isBound_iff hn, or_iff_left hn]

theorem Knows.get_builtin (h : Knows files root xs g) (b : BuiltinRevision) :
    ∃ r, b.revision = .ok r ∧ g.get b.name = .ok r := by
  -- A key with that name would be that of a faulty file.
  have hother : b.name ∉ xs.map (·.1) := by
    intro hmem
    rcases List.mem_map.mp hmem with ⟨x, hx, hname⟩
    rcases h.given x hx with ⟨r, hr, _⟩
    exact hr.free b hname.symm
  rw [h.others b.name hother]
  exact Registry.get_builtins b

variable {p : Project}

theorem run_registry (p : Project) (files : String → Except FileError (List UInt8))
    (root : String) :
    (p.registry (m := Id) files root).run = enterAll files root p.revisions.toList := by
  rw [registry, enterAll, run_foldlM_id]
  congr 1
  funext g x
  exact run_bind_id (fetch files (Path.within root x.2)) fun bytes =>
    liftExcept (addDefinition g x.1 bytes)

theorem mem_toList_iff {key path : String} :
    (key, path) ∈ p.revisions.toList ↔ p.revisions[key]? = some path :=
  Std.ExtTreeMap.mem_toList_iff_getElem?_eq_some

theorem mem_keys_iff : key ∈ p.revisions.toList.map (·.1) ↔
    ∃ path, p.revisions[key]? = some path := by
  rw [List.mem_map]
  constructor
  · rintro ⟨⟨key, path⟩, hmem, rfl⟩
    exact ⟨path, mem_toList_iff.mp hmem⟩
  · rintro ⟨path, hpath⟩
    exact ⟨(key, path), mem_toList_iff.mpr hpath, rfl⟩

theorem pairwise_toList (p : Project) : p.revisions.toList.Pairwise fun x y => x.1 < y.1 := by
  have hordered := p.revisions.ordered_keys_toList
  exact hordered.imp fun hab => compareOfLessAndEq_eq_lt.mp hab

theorem nodup_keys (p : Project) : (p.revisions.toList.map (·.1)).Nodup := by
  refine List.pairwise_map.mpr (p.pairwise_toList.imp fun hlt => ?_)
  exact ne_of_lt hlt

/-- The entries are read in the order of their keys, so the faulty one that counts is the one
    with the smallest key. -/
theorem exists_least_faulty {e : Failure}
    (h : enterAll files root p.revisions.toList = .error e) :
    ∃ key path, p.revisions[key]? = some path ∧ Faulty files (Path.within root path) key e ∧
      ∀ key' path', p.revisions[key']? = some path' → key' < key →
        ∃ r, Gives files (Path.within root path') key' r := by
  rcases exists_of_enterAll_eq_error p.nodup_keys h with
    ⟨before, ⟨key, path⟩, behind, hsplit, hbefore, hfaulty⟩
  have hmem : (key, path) ∈ p.revisions.toList :=
    hsplit ▸ List.mem_append_right before List.mem_cons_self
  refine ⟨key, path, mem_toList_iff.mp hmem, hfaulty, fun key' path' hpath' hlt => ?_⟩
  have hordered := p.pairwise_toList
  have hmem' := mem_toList_iff.mpr hpath'
  rw [hsplit] at hordered hmem'
  rcases List.mem_append.mp hmem' with hfront | hback
  · exact hbefore (key', path') hfront
  · rcases List.mem_cons.mp hback with heq | hbehind
    · cases heq
      exact absurd hlt (lt_irrefl _)
    · have hgreater := (List.pairwise_cons.mp (List.pairwise_append.mp hordered).2.1).1
      exact absurd hlt (lt_asymm (hgreater _ hbehind))

/-- What a project knows. There is a registry just if every file gives a revision under its
    key, and then it knows the built-in revisions and what the files give, sorted by name, and
    nothing else. Otherwise the error is that of the first key in byte order with a faulty
    file. -/
theorem registry_knows_files (p : Project) (files : String → Except FileError (List UInt8))
    (root : String) :
    let x := (p.registry (m := Id) files root).run
    ((∃ g, x = .ok g) ↔ ∀ key path, p.revisions[key]? = some path →
      ∃ r, Gives files (Path.within root path) key r) ∧
    (∀ g, x = .ok g →
      (g.names.Pairwise fun m n => Utf8.bytes m < Utf8.bytes n) ∧
      (∀ n, n ∈ g.names ↔
        (∃ b : BuiltinRevision, b.name = n) ∨ ∃ path, p.revisions[n]? = some path) ∧
      (∀ key path, p.revisions[key]? = some path →
        ∃ r, Gives files (Path.within root path) key r ∧ g.get key = .ok r) ∧
      ∀ b : BuiltinRevision, ∃ r, b.revision = .ok r ∧ g.get b.name = .ok r) ∧
    ∀ e, x = .error e ↔ ∃ key path, p.revisions[key]? = some path ∧
      Faulty files (Path.within root path) key e ∧
      ∀ key' path', p.revisions[key']? = some path' → Utf8.bytes key' < Utf8.bytes key →
        ∃ r, Gives files (Path.within root path') key' r := by
  intro x
  simp only [Utf8.bytes_lt_bytes_iff]
  have hx : x = enterAll files root p.revisions.toList := run_registry p files root
  have hknows {g : Registry} (hg : x = .ok g) : Knows files root p.revisions.toList g :=
    knows_of_enterAll p.nodup_keys (hx ▸ hg)
  have hgiven {g : Registry} (hg : x = .ok g) {key path : String}
      (hpath : p.revisions[key]? = some path) :
      ∃ r, Gives files (Path.within root path) key r ∧ g.get key = .ok r :=
    (hknows hg).given (key, path) (mem_toList_iff.mpr hpath)
  refine ⟨⟨?_, ?_⟩, fun g hg => ⟨g.pairwise_names, fun n => ?_, ?_, (hknows hg).get_builtin⟩,
    fun e => ⟨fun he => exists_least_faulty (hx ▸ he), ?_⟩⟩
  · rintro ⟨g, hg⟩ key path hpath
    rcases hgiven hg hpath with ⟨r, hr, _⟩
    exact ⟨r, hr⟩
  · intro hall
    cases hg : x with
    | ok g => exact ⟨g, rfl⟩
    | error e =>
        rcases exists_least_faulty (hx ▸ hg) with ⟨key, path, hpath, hfaulty, _⟩
        exact absurd (hall key path hpath) hfaulty.not_gives
  · rw [(hknows hg).mem_names_iff, mem_keys_iff]
  · intro key path hpath
    exact hgiven hg hpath
  · rintro ⟨key, path, hpath, hfaulty, hsmaller⟩
    cases hg : x with
    | ok g =>
        rcases hgiven hg hpath with ⟨r, hr, _⟩
        exact absurd ⟨r, hr⟩ hfaulty.not_gives
    | error e' =>
        rcases exists_least_faulty (hx ▸ hg) with ⟨key', path', hpath', hfaulty', hsmaller'⟩
        -- Of two faulty files neither can have a key before the other's.
        rcases lt_trichotomy key key' with hlt | rfl | hlt
        · exact absurd (hsmaller' key path hpath hlt) hfaulty.not_gives
        · cases hpath.symm.trans hpath'
          rw [hfaulty.unique hfaulty']
        · exact absurd (hsmaller key' path' hpath' hlt) hfaulty'.not_gives

/-- Two files with the same name inside, which is that of a built-in revision besides. -/
theorem registry_knows_files_namesakes :
    let d := BuiltinRevision.tigress2.definition
    let files : String → Except FileError (List UInt8) :=
      fun _ => .ok (Utf8.bytes (d.toJson.write .pretty))
    let p : Project := { revisions := .ofList [("first", "a.json"), ("second", "b.json")] }
    ∃ g r s, (p.registry (m := Id) files "").run = .ok g ∧
      g.get "first" = .ok r ∧ r.name = "first" ∧ g.get "second" = .ok s ∧ s.name = "second" := by
  intro d files p
  have hentries {key path : String} : p.revisions[key]? = some path ↔
      (key, path) ∈ [("first", "a.json"), ("second", "b.json")] :=
    getElem?_ofList_eq_some_iff (by decide)
  have hgives (key file : String) (hfree : ∀ b : BuiltinRevision, b.name ≠ key)
      (hok : (Revision.ofDefinition { d with name := key }).isOk = true) :
      ∃ r, Gives files file key r := by
    have hfile : files file = .ok (Utf8.bytes (d.toJson.write .pretty)) := rfl
    have hholds : Holds files file d := holds_of_write hfile
    cases hr : Revision.ofDefinition { d with name := key } with
    | error e =>
        rw [hr] at hok
        contradiction
    | ok r => exact ⟨r, ⟨d, hholds, hr⟩, hfree⟩
  rcases registry_knows_files p files "" with ⟨hexists, hknown, _⟩
  have hall : ∀ key path, p.revisions[key]? = some path →
      ∃ r, Gives files (Path.within "" path) key r := by
    intro key path hpath
    have hkey := hentries.mp hpath
    simp only [List.mem_cons, Prod.mk.injEq, List.not_mem_nil, or_false] at hkey
    rcases hkey with ⟨rfl, _⟩ | ⟨rfl, _⟩
    · exact hgives _ _ (fun b => by cases b <;> decide) (by decide)
    · exact hgives _ _ (fun b => by cases b <;> decide) (by decide)
  rcases hexists.mpr hall with ⟨g, hg⟩
  rcases hknown g hg with ⟨_, _, hget, _⟩
  rcases hget "first" "a.json" (hentries.mpr List.mem_cons_self) with ⟨r, hr, hfirst⟩
  rcases hget "second" "b.json" (hentries.mpr (List.mem_cons_of_mem _ List.mem_cons_self)) with
    ⟨s, hs, hsecond⟩
  exact ⟨g, r, s, hg, hfirst, hr.name_eq, hsecond, hs.name_eq⟩

end Project

end StackLift
