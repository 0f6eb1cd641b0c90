/-
What the operations on a store leave alone (`change_atomic`).

Half of a character can be written as an escape in a file but cannot be encoded, and when this is noticed the
file has been emptied. The steps before the writing are readings, and the argument follows them: each leaves
the files as they are and gives values without halves, as long as what it is given has none.
-/
import ScriptWorkbench.Proofs.Scanned
import ScriptWorkbench.Proofs.StoreFiles

namespace ScriptWorkbench

open List

namespace Settings.Store

/-! ## The operations -/

/-- An operation that changes a store, with the value that it is given. -/
inductive Change where
  | addPackage (info : Json)
  | addSourcePath (path : Json)
  | addPackagePath (path : Json)
  | setOutputPath (path : Json)
  | updateSettings (updates : Json)

namespace Change

def given : Change → Json
  | .addPackage v | .addSourcePath v | .addPackagePath v | .setOutputPath v | .updateSettings v => v

def file (s : Store) : Change → String
  | .addPackage _ => s.packagesFile
  | .addSourcePath _ | .addPackagePath _ | .setOutputPath _ => s.pathsFile
  | .updateSettings _ => s.settingsFile

def run (s : Store) (now : String) : Change → Run Json
  | .addPackage info => s.addPackage now info
  | .addSourcePath path => do s.addSourcePath now path; return .null
  | .addPackagePath path => do s.addPackagePath now path; return .null
  | .setOutputPath path => do s.setOutputPath now path; return .null
  | .updateSettings updates => s.updateSettings now updates

def listing? : Change → Option (String × Json)
  | .addSourcePath path => some ("sourcePaths", path)
  | .addPackagePath path => some ("packagePaths", path)
  | _ => none

/-- There are halves of characters in what the operation is given or in the file that it concerns. -/
def Torn (s : Store) (fs : Files) (c : Change) : Prop :=
  ∃ v, (v = c.given ∨ Contains fs (c.file s) v) ∧ v.halves ≠ []

end Change

end Settings.Store

/-! ## Values without halves of characters -/

namespace Json

variable {torn : Prop} {v w x : Json} {key : String} {items : List Json} {fields : Fields}
  {es : Entries}

def Whole (torn : Prop) (v : Json) : Prop := ¬torn → v.halves = []

theorem whole_arr : Whole torn (.arr items) ↔ ∀ v ∈ items, Whole torn v := by
  simp only [Whole, halves_arr]
  exact ⟨fun h v hv ht => h ht v hv, fun h ht v hv => h v hv ht⟩

theorem halves_value (name : Name) : name.value.halves = name.halves := by cases name <;> rfl

theorem whole_obj : Whole torn (.obj fields) ↔ ∀ f ∈ fields, Whole torn f.1.value ∧ Whole torn f.2 := by
  simp only [Whole, halves_obj, halves_value]
  exact ⟨fun h f hf => ⟨fun ht => (h ht f hf).1, fun ht => (h ht f hf).2⟩,
    fun h ht f hf => ⟨(h f hf).1 ht, (h f hf).2 ht⟩⟩

theorem whole_str (s : String) : Whole torn (.str s) := fun _ => rfl

theorem Whole.lookup (hv : Whole torn (.obj fields)) (h : fields.lookup (.whole key) = some x) :
    Whole torn x := by
  obtain ⟨before, after, rfl, -⟩ := lookup_eq_some_iff.1 h
  exact (whole_obj.1 hv (.whole key, x) (mem_append_right before mem_cons_self)).2

theorem Whole.member (hv : Whole torn v) (h : v.member key = .ok x) : Whole torn x := by
  cases v with
  | obj fields =>
    rw [Json.member] at h
    split at h
    next hx => cases h; exact hv.lookup hx
    next => cases h
  | _ => cases h

theorem Whole.memberOr (hv : Whole torn v) (hw : Whole torn w) (h : v.memberOr key w = .ok x) :
    Whole torn x := by
  cases v with
  | obj fields =>
    cases h
    cases hfound : fields.lookup (.whole key) with
    | none => exact hw
    | some y => exact hv.lookup hfound
  | _ => cases h

theorem Whole.append (hv : Whole torn v) (hw : Whole torn w) (h : v.append w = .ok x) : Whole torn x := by
  cases v with
  | arr items =>
    cases h
    exact whole_arr.2 (forall_mem_append.2 ⟨whole_arr.1 hv, forall_mem_singleton.2 hw⟩)
  | _ => cases h

theorem Whole.assign (hv : Whole torn v) (hw : Whole torn w) (h : v.assign key w = .ok x) : Whole torn x := by
  cases v with
  | obj fields =>
    cases h
    refine whole_obj.2 fun f hf => ?_
    obtain rfl | hold := mem_setField hf
    · exact ⟨whole_str key, hw⟩
    · exact whole_obj.1 hv f hold
  | _ => cases h

theorem Whole.elements (hv : Whole torn v) (h : v.elements = .ok items) : ∀ w ∈ items, Whole torn w := by
  cases v with
  | arr items => cases h; exact whole_arr.1 hv
  | obj fields => cases h; exact forall_mem_map.2 fun f hf => (whole_obj.1 hv f hf).1
  | str s => cases h; exact forall_mem_map.2 fun _ _ => whole_str _
  | torn codes =>
    cases h
    refine forall_mem_map.2 fun n hn ht => ?_
    have hwhole : ¬isHalf n = true := filter_eq_nil_iff.1 (hv ht) n hn
    rw [ofCodes, Name.ofCodes, any_cons, any_nil, Bool.or_false, if_neg hwhole]
    rfl
  | _ => cases h

def WholeEntries (torn : Prop) (es : Entries) : Prop := ∀ e ∈ es, Whole torn e.1 ∧ Whole torn e.2

theorem whole_keyName (h : Whole torn v) : Whole torn v.keyName.value := by
  cases v with
  | torn codes => exact h
  | bool b => cases b <;> exact whole_str _
  | _ => exact whole_str _

theorem whole_setEntry (hes : WholeEntries torn es) (hv : Whole torn v) (hw : Whole torn w) :
    WholeEntries torn (setEntry v w es) := by
  induction es with
  | nil => exact forall_mem_singleton.2 ⟨hv, hw⟩
  | cons e es ih =>
    obtain ⟨he, hes⟩ := forall_mem_cons.1 hes
    rw [setEntry]
    split
    · exact forall_mem_cons.2 ⟨⟨he.1, hw⟩, hes⟩
    · exact forall_mem_cons.2 ⟨he, ih hes⟩

theorem Whole.pairAt {place : Nat} {k : Json} (hv : Whole torn v) (h : pairAt place v = .ok (k, w)) :
    Whole torn k ∧ Whole torn w := by
  rw [Json.pairAt] at h
  split at h
  · cases h
  next k' w' hparts =>
    obtain ⟨key, hkey, heq⟩ := map_eq_ok h
    cases heq
    obtain rfl : k' = k := by cases k' <;> cases hkey <;> rfl
    exact ⟨hv.elements hparts k' mem_cons_self, hv.elements hparts w (by simp)⟩
  · cases h

theorem whole_updatePairs {place : Nat} (hes : WholeEntries torn es) (hitems : ∀ w ∈ items, Whole torn w) :
    WholeEntries torn (updatePairs es place items).1 := by
  induction items generalizing es place with
  | nil => exact hes
  | cons v items ih =>
    obtain ⟨hv, hitems⟩ := forall_mem_cons.1 hitems
    rw [updatePairs]
    split
    next => exact hes
    next hpair => exact ih (whole_setEntry hes (hv.pairAt hpair).1 (hv.pairAt hpair).2) hitems

theorem whole_update (hes : WholeEntries torn es) (hv : Whole torn v) : WholeEntries torn (update es v).1 := by
  rw [update.eq_def]
  split
  next new =>
    exact foldlRecOn (motive := WholeEntries torn) new _ hes fun es hes f hf =>
      whole_setEntry hes (whole_obj.1 hv f hf).1 (whole_obj.1 hv f hf).2
  next =>
    split
    · exact hes
    next hitems => exact whole_updatePairs hes (hv.elements hitems)

end Json

namespace Settings.Store

open ScriptWorkbench.Action Json

variable {α β ε : Type} {file now : String} {fs : Files} {torn : Prop} {P : α → Prop} {Q : β → Prop}
  {a : Run α} {f : α → Run β}

/-! ## Readings -/

def Reads (fs : Files) (P : α → Prop) (a : Run α) : Prop :=
  ∀ r fs', a.perform fs = (r, fs') → fs' = fs ∧ ∀ x, r = .ok x → P x

theorem reads_ofExcept {g : ε → Failure} {r : Except ε α} (h : ∀ x, r = .ok x → P x) :
    Reads fs P (Action.ofExcept g r) := by
  intro r' fs' hrun
  cases r with
  | ok y => cases hrun; exact ⟨rfl, fun x hx => by cases hx; exact h y rfl⟩
  | error e => cases hrun; exact ⟨rfl, fun x hx => by cases hx⟩

theorem reads_get : Reads fs (· = fs) get := by
  intro r fs' hrun
  cases hrun
  exact ⟨rfl, fun x hx => by cases hx; rfl⟩

theorem reads_pure {x : α} (h : P x) : Reads fs P (pure x) := by
  intro r fs' hrun
  cases hrun
  exact ⟨rfl, fun y hy => by cases hy; exact h⟩

theorem reads_throw {e : Failure} : Reads fs P (throw e) := by
  intro r fs' hrun
  cases hrun
  exact ⟨rfl, fun y hy => by cases hy⟩

theorem Reads.outcome {Φ : Except Failure β → Files → Prop} (ha : Reads fs P a)
    (hfails : ∀ e, Φ (.error e) fs) (hf : ∀ x, P x → ∀ r fs', (f x).perform fs = (r, fs') → Φ r fs') :
    ∀ r fs', (a >>= f).perform fs = (r, fs') → Φ r fs' := by
  intro r fs'' hrun
  cases hfirst : a.perform fs with
  | mk r' fs' =>
    obtain ⟨rfl, hP⟩ := ha r' fs' hfirst
    cases r' with
    | ok x =>
      rw [perform_bind_ok hfirst] at hrun
      exact hf x (hP x rfl) r fs'' hrun
    | error e =>
      rw [perform_bind_error hfirst] at hrun
      cases hrun
      exact hfails e

theorem Reads.bind (ha : Reads fs P a) (hf : ∀ x, P x → Reads fs Q (f x)) : Reads fs Q (a >>= f) :=
  ha.outcome (fun _ => ⟨rfl, fun _ hx => by cases hx⟩) hf

theorem reads_load (hfile : ∀ v, Contains fs file v → Whole torn v) : Reads fs (Whole torn) (load file) := by
  have hthere : Reads fs (fun _ => True) (isThere file) :=
    reads_get.bind fun _ _ => (reads_ofExcept fun _ _ => trivial).bind fun _ _ => reads_pure trivial
  have hreading : Reads fs (fun text => fs.readText file = .ok text) (onFiles (Files.reading file)) := by
    intro r fs' hrun
    rw [onFiles, perform_within, Files.reading, perform_bind_ok (perform_get _), id] at hrun
    cases hread : fs.readText file with
    | ok text => rw [hread] at hrun; cases hrun; exact ⟨rfl, fun x hx => by cases hx; rfl⟩
    | error e => rw [hread] at hrun; cases hrun; exact ⟨rfl, fun x hx => by cases hx⟩
  refine hthere.bind fun there _ => ?_
  split
  next =>
    refine hreading.bind fun text htext => reads_ofExcept fun v hv => ?_
    exact hfile v ⟨text, htext, hv⟩
  next => exact reads_pure fun _ => rfl

theorem reads_resolved (v : Json) : Reads fs (fun _ => True) (resolved v) := by
  rw [resolved.eq_def]
  split
  · exact reads_throw
  · refine (reads_ofExcept fun _ _ => trivial).bind fun _ _ => ?_
    exact reads_get.bind fun _ _ => (reads_ofExcept fun _ _ => trivial).bind fun _ _ => reads_pure trivial

/-! ## Changes of one file -/

/-- The operation leaves the files as they are, or succeeds and has written the file, or has emptied it as
it came on half of a character; this is only possible under the condition. -/
def Confined (torn : Prop) (file : String) (fs : Files) (a : Run α) : Prop :=
  ∀ r fs', a.perform fs = (r, fs') → fs' = fs ∨
    (∃ x text, r = .ok x ∧ fs.writeText file text = .ok fs') ∨
    torn ∧ ∃ text half, r = .error (.torn text half) ∧ fs.writeText file "" = .ok fs'

theorem Reads.confined (h : Reads fs P a) : Confined torn file fs a :=
  fun r fs' hrun => .inl (h r fs' hrun).1

theorem Reads.andThen (ha : Reads fs P a) (hf : ∀ x, P x → Confined torn file fs (f x)) :
    Confined torn file fs (a >>= f) :=
  ha.outcome (fun _ => .inl rfl) hf

theorem Confined.giving (h : Confined torn file fs a) (g : α → β) :
    Confined torn file fs (a >>= fun x => pure (g x)) := by
  intro r fs'' hrun
  cases hfirst : a.perform fs with
  | mk r' fs' =>
    have houtcome := h r' fs' hfirst
    cases r' with
    | ok x =>
      rw [perform_bind_ok hfirst] at hrun
      cases hrun
      obtain hsame | ⟨_, text, -, hwrite⟩ | ⟨-, _, _, hr, -⟩ := houtcome
      · exact .inl hsame
      · exact .inr (.inl ⟨_, text, rfl, hwrite⟩)
      · cases hr
    | error e =>
      rw [perform_bind_error hfirst] at hrun
      cases hrun
      obtain hsame | ⟨_, _, hr, -⟩ | ⟨htorn, text, half, hr, hwrite⟩ := houtcome
      · exact .inl hsame
      · cases hr
      · cases hr
        exact .inr (.inr ⟨htorn, text, half, rfl, hwrite⟩)

theorem confined_saveAt {v : Json} (hv : Whole torn v) : Confined torn file fs (saveAt now file v) := by
  refine Reads.andThen (reads_ofExcept fun _ => hv.assign (whole_str now)) fun w hw => ?_
  refine Confined.giving ?_ fun _ => w
  intro r fs' hrun
  obtain ⟨e, rfl, -, rfl⟩ | ⟨rfl, -, hwrite⟩ | ⟨half, rfl, hhalf, hwrite⟩ := save_cases hrun
  · exact .inl rfl
  · exact .inr (.inl ⟨(), _, rfl, hwrite⟩)
  · refine .inr (.inr ⟨Classical.byContradiction fun ht => ?_, _, half, rfl, hwrite⟩)
    rw [hw ht] at hhalf
    cases hhalf

/-! ## Each operation -/

variable {s : Store} {given : Json}

theorem confined_addPackage (hgiven : Whole torn given)
    (hfile : ∀ v, Contains fs s.packagesFile v → Whole torn v) :
    Confined torn s.packagesFile fs (s.addPackage now given) := by
  have hmember (key : String) {w : Json} (hw : Whole torn w) :
      Reads fs (Whole torn) (shaped (given.memberOr key w)) := reads_ofExcept fun _ => hgiven.memberOr hw
  refine (reads_load hfile).andThen fun config hconfig => ?_
  refine (hmember "name" fun _ => rfl).andThen fun name hname => ?_
  refine (hmember "version" (whole_str _)).andThen fun version hversion => ?_
  refine (hmember "path" fun _ => rfl).andThen fun path _ => ?_
  refine (reads_resolved path).andThen fun text _ => ?_
  refine (hmember "main" (whole_str _)).andThen fun main hmain => ?_
  refine Reads.andThen (P := Whole torn) (reads_ofExcept fun packages h => ?_) fun packages hpackages => ?_
  · obtain ⟨l, hl, h⟩ := bind_eq_ok h
    refine (hconfig.member hl).append (whole_obj.2 ?_) h
    simp only [forall_mem_cons]
    exact ⟨⟨whole_str _, hname⟩, ⟨whole_str _, hversion⟩, ⟨whole_str _, whole_str _⟩, ⟨whole_str _, hmain⟩,
      ⟨whole_str _, whole_str _⟩, forall_mem_nil _⟩
  refine Reads.andThen (reads_ofExcept fun _ => hconfig.assign hpackages) fun config' hconfig' => ?_
  exact (confined_saveAt hconfig').giving _

theorem confined_addPath (list : String) (hfile : ∀ v, Contains fs s.pathsFile v → Whole torn v) :
    Confined torn s.pathsFile fs (s.addPath now list given) := by
  refine (reads_load hfile).andThen fun config hconfig => ?_
  refine (reads_resolved given).andThen fun text _ => ?_
  refine Reads.andThen (reads_ofExcept fun _ => hconfig.member) fun known hknown => ?_
  refine Reads.andThen (reads_ofExcept (P := fun _ => True) fun _ _ => trivial) fun listed _ => ?_
  split
  · exact (reads_pure (P := fun _ => True) trivial).confined
  refine Reads.andThen (P := Whole torn) (reads_ofExcept fun config' h => ?_) fun config' hconfig' => ?_
  · obtain ⟨l, hl, h⟩ := bind_eq_ok h
    exact hconfig.assign (hknown.append (whole_str _) hl) h
  exact (confined_saveAt hconfig').giving _

theorem confined_setOutputPath (hfile : ∀ v, Contains fs s.pathsFile v → Whole torn v) :
    Confined torn s.pathsFile fs (s.setOutputPath now given) := by
  refine (reads_load hfile).andThen fun config hconfig => ?_
  refine (reads_resolved given).andThen fun text _ => ?_
  refine Reads.andThen (reads_ofExcept fun _ => hconfig.assign (whole_str _)) fun config' hconfig' => ?_
  exact (confined_saveAt hconfig').giving _

theorem confined_updateSettings (hgiven : Whole torn given)
    (hfile : ∀ v, Contains fs s.settingsFile v → Whole torn v) :
    Confined torn s.settingsFile fs (s.updateSettings now given) := by
  refine (reads_load hfile).andThen fun config hconfig => ?_
  split
  next fields =>
    split
    next entries hupdate =>
      have hfields : WholeEntries torn (entriesOf fields) := forall_mem_map.2 (whole_obj.1 hconfig)
      have hentries := whole_update hfields hgiven
      rw [hupdate] at hentries
      exact confined_saveAt (whole_obj.2 (forall_mem_map.2 fun e he =>
        (hentries e he).imp_left whole_keyName))
    · exact Reads.confined (P := fun _ => True) reads_throw
  · exact Reads.confined (P := fun _ => True) reads_throw

theorem confined_run (c : Change) : Confined (c.Torn s fs) (c.file s) fs (c.run s now) := by
  have hgiven : Whole (c.Torn s fs) c.given :=
    fun ht => Classical.byContradiction fun h => ht ⟨_, .inl rfl, h⟩
  have hfile (v : Json) (hv : Contains fs (c.file s) v) : Whole (c.Torn s fs) v :=
    fun ht => Classical.byContradiction fun h => ht ⟨v, .inr hv, h⟩
  cases c with
  | addPackage => exact confined_addPackage hgiven hfile
  | addSourcePath | addPackagePath => exact (confined_addPath _ hfile).giving _
  | setOutputPath => exact (confined_setOutputPath hfile).giving _
  | updateSettings => exact confined_updateSettings hgiven hfile

theorem apart_file {c : Change} {other : String} (h : other ∈ [s.packagesFile, s.pathsFile, s.settingsFile])
    (hne : other ≠ c.file s) : Path.Apart other (c.file s) := by
  simp only [mem_cons, not_mem_nil, or_false] at h
  have hpaths := s.apart_packages_paths
  have hsettings := s.apart_packages_settings
  have hothers := s.apart_paths_settings
  obtain rfl | rfl | rfl := h <;> cases c <;>
    simp_all only [Change.file, hpaths.symm, hsettings.symm, hothers.symm, ne_eq, not_true_eq_false]

theorem perform_addPath_listed (now : String) {list text : String} {path : Json} {fields : Fields}
    {items : List Json} (hpath : (resolved path).perform fs = (.ok text, fs))
    (hfile : Contains fs s.pathsFile (.obj fields)) (hlist : fields.lookup (.whole list) = some (.arr items))
    (hmem : Json.str text ∈ items) : (s.addPath now list path).perform fs = (.ok (), fs) := by
  have hmember : (shaped ((Json.obj fields).member list)).perform fs = (.ok (.arr items), fs) := by
    rw [Json.member, hlist]
    rfl
  have hholds : (shaped ((Json.arr items).holds text)).perform fs = (.ok true, fs) := by
    rw [Json.holds, any_eq_true.2 ⟨_, hmem, by simp [Json.same]⟩]
    rfl
  rw [addPath, perform_bind_ok hfile.load, perform_bind_ok hpath, perform_bind_ok hmember,
    perform_bind_ok hholds]
  rfl

/-- **A change of a store is atomic and local.** If it fails, no file has changed, unless there is half of a
character in what is to be written: then the one file has been emptied. If it succeeds, only this file can
have changed. The two others are as they were in any case, and a path that is listed changes nothing. -/
theorem change_atomic {now : String} {s : Store} {c : Change} {fs fs' : Files} {r : Except Failure Json}
    (h : (c.run s now).perform fs = (r, fs')) :
    (∀ e, r = .error e → fs' = fs ∨
      c.Torn s fs ∧ (∃ text half, e = .torn text half) ∧ fs.writeText (c.file s) "" = .ok fs') ∧
    (∀ v, r = .ok v → fs' = fs ∨ ∃ text, fs.writeText (c.file s) text = .ok fs') ∧
    (∀ other ∈ [s.packagesFile, s.pathsFile, s.settingsFile], other ≠ c.file s →
      fs'.find? other = fs.find? other) ∧
    ∀ list path text fields items, c.listing? = some (list, path) →
      (resolved path).perform fs = (.ok text, fs) → Contains fs s.pathsFile (.obj fields) →
      fields.lookup (.whole list) = some (.arr items) → .str text ∈ items → r = .ok .null ∧ fs' = fs := by
  have hoften := confined_run c r fs' h
  refine ⟨?_, ?_, ?_, ?_⟩
  · rintro e rfl
    obtain hsame | ⟨_, _, hr, -⟩ | ⟨htorn, text, half, hr, hwrite⟩ := hoften
    · exact .inl hsame
    · cases hr
    · cases hr
      exact .inr ⟨htorn, ⟨text, half, rfl⟩, hwrite⟩
  · rintro v rfl
    obtain hsame | ⟨_, text, -, hwrite⟩ | ⟨-, _, _, hr, -⟩ := hoften
    · exact .inl hsame
    · exact .inr ⟨text, hwrite⟩
    · cases hr
  · intro other hother hne
    have hapart := apart_file hother hne
    obtain rfl | ⟨_, _, -, hwrite⟩ | ⟨-, _, _, -, hwrite⟩ := hoften
    · rfl
    · exact Files.find?_writeText_of_apart hwrite hapart
    · exact Files.find?_writeText_of_apart hwrite hapart
  · intro list path text fields items hlisting hpath hfile hlist hmem
    have hlisted := perform_addPath_listed now hpath hfile hlist hmem
    cases c with
    | addSourcePath given =>
      cases hlisting
      rw [Change.run, addSourcePath, perform_bind_ok hlisted] at h
      cases h
      exact ⟨rfl, rfl⟩
    | addPackagePath given =>
      cases hlisting
      rw [Change.run, addPackagePath, perform_bind_ok hlisted] at h
      cases h
      exact ⟨rfl, rfl⟩
    | _ => cases hlisting

def onePath : Files :=
  ⟨[(["paths.json"], .file (.text (Json.obj [("sourcePaths", .arr [.str "/a"])]).writeFile))], [], [], false⟩

theorem change_atomic_onePath :
    ((Change.addSourcePath (.str "b/../a")).run ⟨⟨"", []⟩⟩ "").perform onePath = (.ok .null, onePath) := by
  have hexact : (Json.obj [("sourcePaths", .arr [.str "/a"])]).Exact :=
    .obj (by decide) rfl (List.forall_mem_singleton.2 (.arr (List.forall_mem_singleton.2 (.str _))))
  have hread : onePath.readText "paths.json" = .ok (Json.obj [("sourcePaths", .arr [.str "/a"])]).writeFile :=
    eq_ok_of_toOption (by decide +kernel)
  have hpath : (resolved (.str "b/../a")).perform onePath = (.ok "/a", onePath) := by
    have hresult : ((resolved (.str "b/../a")).perform onePath).1.toOption = some "/a" := by decide +kernel
    cases hrun : (resolved (.str "b/../a")).perform onePath with
    | mk r fs' =>
      rw [hrun] at hresult
      exact Prod.ext (eq_ok_of_toOption hresult) (reads_resolved _ r fs' hrun).1
  cases hrun : ((Change.addSourcePath (.str "b/../a")).run ⟨⟨"", []⟩⟩ "").perform onePath with
  | mk r fs' =>
    obtain ⟨rfl, rfl⟩ := (change_atomic hrun).2.2.2 "sourcePaths" _ "/a" _ _ rfl hpath
      ⟨_, hread, hexact.read_writeFile (by decide)⟩ rfl List.mem_cons_self
    rfl

/-- Half of a character in the file of the packages: adding a package fails, and the file is empty. -/
theorem addPackage_empties :
    let text := "\x7b\"x\": \"\\ud800\", \"packages\": []\x7d"
    let fs : Files := ⟨[(["packages.json"], .file (.text text))], [], [], false⟩
    let run := (Store.addPackage ⟨⟨"", []⟩⟩ "" (.obj [("path", .str "a")])).perform fs
    run.1.toOption.isNone = true ∧ run.2.find? "packages.json" = some (.file (.text "")) := by
  decide +kernel

end Settings.Store

end ScriptWorkbench
