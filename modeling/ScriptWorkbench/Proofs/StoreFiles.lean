/-
Values kept in files. **Saving a value leaves the file with that value in it, and every file with another name
as it was** (`Saved`); loading gives the value that a file holds. Most statements here are about steps that
succeeded, as each of them can only succeed in one way.
-/
import ScriptWorkbench.Proofs.Actions
import ScriptWorkbench.Proofs.FileWrites
import ScriptWorkbench.Proofs.JsonRoundTrip
import ScriptWorkbench.Settings.Store

namespace ScriptWorkbench.Settings.Store

open ScriptWorkbench.Action List

variable {file now : String} {u : Unit}

/-! ## Loading -/

/-- A file holds a value. -/
def Contains (fs : Files) (file : String) (v : Json) : Prop :=
  ∃ text, fs.readText file = .ok text ∧ Json.read text = .ok v

variable {α β : Type} {fs fs' : Files} {file : String} {v : Json}

theorem perform_isThere (h : (fs.find? file).isSome = true) :
    (isThere file).perform fs = (.ok true, fs) := by
  have hlook : ∃ e, fs.lookUp file = .ok (some e) := by
    rw [Files.find?] at h
    cases hlook : fs.lookUp file with
    | error e => rw [hlook] at h; cases h
    | ok found =>
      cases found with
      | none => rw [hlook] at h; cases h
      | some e => exact ⟨e, rfl⟩
  obtain ⟨e, hlook⟩ := hlook
  rw [isThere, perform_bind_ok (perform_get fs), hlook]
  rfl

theorem perform_isThere_eq_ok {b : Bool} (h : (isThere file).perform fs = (.ok b, fs'))
    (hnone : fs.find? file = none) : b = false ∧ fs' = fs := by
  rw [isThere, perform_bind_ok (perform_get fs)] at h
  rw [Files.find?] at hnone
  cases hlook : fs.lookUp file with
  | error e => rw [hlook] at h; cases h
  | ok found =>
    rw [hlook] at h hnone
    cases found with
    | none =>
      cases h
      exact ⟨rfl, rfl⟩
    | some e => cases hnone

theorem Contains.load (h : Contains fs file v) : (load file).perform fs = (.ok v, fs) := by
  obtain ⟨text, hread, hvalue⟩ := h
  have hreading : (onFiles (Files.reading file)).perform fs = (.ok text, fs) := by
    rw [onFiles, perform_within, Files.reading, perform_bind_ok (perform_get _), id, hread]
    rfl
  rw [Store.load, perform_bind_ok (perform_isThere (Files.find?_of_readText hread)), if_pos rfl,
    perform_bind_ok hreading, hvalue]
  rfl

/-! ## Steps that succeed -/

theorem perform_shaped {r : Except Json.AccessError α} {x : α} (h : r = .ok x) (fs : Files) :
    (shaped r).perform fs = (.ok x, fs) := by
  rw [h]
  rfl

theorem perform_shaped_bind_eq_ok {r : Except Json.AccessError α} {f : α → Run β} {y : β}
    (h : (shaped r >>= f).perform fs = (.ok y, fs')) :
    ∃ x, r = .ok x ∧ (f x).perform fs = (.ok y, fs') := by
  obtain ⟨x, fs₁, hx, hrest⟩ := perform_bind_eq_ok h
  obtain ⟨hr, rfl⟩ := perform_ofExcept_eq_ok hx
  exact ⟨x, hr, hrest⟩

theorem perform_onFiles_eq_ok {a : Action Files FileError α} {x : α}
    (h : (onFiles a).perform fs = (.ok x, fs')) : a.perform fs = (.ok x, fs') := by
  obtain ⟨t, hrun, rfl⟩ := perform_within_eq_ok h
  exact hrun

/-! ## Saving -/

/-- **What saving a value does:** the file holds it, and all files with other names are as before. -/
structure Saved (file : String) (v : Json) (fs fs' : Files) : Prop where
  contains : Contains fs' file v
  others : ∀ other w, Path.Apart other file → Contains fs other w → Contains fs' other w
  absent : ∀ other, Path.Apart other file → fs.find? other = none → fs'.find? other = none
  keeps : fs.Keeps fs'
  home : fs'.home = fs.home
  writable : v.writable = true

theorem perform_write_ok {text : String} (h : fs.writeText file text = .ok fs') :
    (onFiles (Files.writing file text)).perform fs = (.ok (), fs') := by
  rw [onFiles, perform_within, id, perform_writing_ok h]
  rfl

theorem perform_write_error {text : String} {e : FileError} (h : fs.writeText file text = .error e) :
    (onFiles (Files.writing file text)).perform fs = (.error (.file e), fs) := by
  rw [onFiles, perform_within, id, perform_writing_error h]
  rfl

/-- **What saving a value can come to:** it fails and nothing is written, or the value is written, or it has
halves of characters in it and the file is emptied. -/
theorem save_cases {r : Except Failure Unit} (h : (save file v).perform fs = (r, fs')) :
    (∃ e, r = .error e ∧ (∀ text half, e ≠ .torn text half) ∧ fs' = fs) ∨
    (r = .ok () ∧ (v.writable = true ∧ v.halves = []) ∧ fs.writeText file v.writeFile = .ok fs') ∨
    ∃ half, r = .error (.torn (v.writeAt 0) half) ∧ half ∈ v.halves ∧ fs.writeText file "" = .ok fs' := by
  rw [save] at h
  split at h
  next hwritable =>
    split at h
    next hnone =>
      cases hwrite : fs.writeText file v.writeFile with
      | error e => rw [perform_write_error hwrite] at h; cases h; exact .inl ⟨_, rfl, nofun, rfl⟩
      | ok written => rw [perform_write_ok hwrite] at h; cases h; exact .inr (.inl ⟨rfl, ⟨hwritable, hnone⟩, rfl⟩)
    next half others hhalves =>
      cases hwrite : fs.writeText file "" with
      | error e =>
        rw [perform_bind_error (perform_write_error hwrite)] at h
        cases h
        exact .inl ⟨_, rfl, nofun, rfl⟩
      | ok written =>
        rw [perform_bind_ok (perform_write_ok hwrite)] at h
        cases h
        exact .inr (.inr ⟨half, rfl, hhalves ▸ mem_cons_self, rfl⟩)
  next => cases h; exact .inl ⟨_, rfl, nofun, rfl⟩

theorem perform_save_iff : (save file v).perform fs = (.ok u, fs') ↔
    (v.writable = true ∧ v.halves = []) ∧ fs.writeText file v.writeFile = .ok fs' := by
  constructor
  · intro h
    obtain ⟨_, hr, -⟩ | ⟨-, hsaved⟩ | ⟨_, hr, -⟩ := save_cases h
    · cases hr
    · exact hsaved
    · cases hr
  · rintro ⟨⟨hwritable, hnone⟩, hwrite⟩
    rw [save, if_pos hwritable, hnone]
    exact perform_write_ok hwrite

theorem saved_of_save (hexact : v.Exact) (h : (save file v).perform fs = (.ok u, fs')) :
    Saved file v fs fs' := by
  obtain ⟨⟨hwritable, -⟩, hwrite⟩ := perform_save_iff.1 h
  -- without carriage returns the text is read as it was written, and it is the text of the value
  have hreturn : '\r' ∉ v.writeFile.toList := by
    rw [Json.writeFile, String.toList_ofList]
    exact hexact.not_mem_writeAt 0
  obtain ⟨written, hwrite', hread⟩ := Files.readText_writeText ⟨_, _, hwrite⟩ hreturn
  rw [hwrite] at hwrite'
  cases hwrite'
  obtain ⟨place, names, -, -, hfile, hput⟩ := Files.writeText_eq_put hwrite
  refine ⟨⟨_, hread, hexact.read_writeFile hwritable⟩, ?_, ?_, ?_, ?_, hwritable⟩
  · rintro other w hapart ⟨text, hold, hvalue⟩
    exact ⟨text, Files.readText_writeText_of_apart hold hwrite hapart, hvalue⟩
  · intro other hapart hnone
    rw [Files.find?_writeText_of_apart hwrite hapart, hnone]
  · rw [hput]
    exact Files.keeps_put hfile _
  · rw [hput, Files.put_home]

/-- **A value that was saved is what is loaded.** Take a value of objects without a repeated key, arrays,
texts, integers, truth values and null. It is saved exactly if no integer in it has too many digits and the
file can be written, whatever was in the file; and loading the file then gives the same value and changes
nothing. -/
theorem load_of_save {v : Json} (hexact : v.Exact) (file : String) (fs fs' : Files) :
    ((save file v).perform fs = (.ok (), fs') ↔
      v.writable = true ∧ fs.writeText file v.writeFile = .ok fs') ∧
      ((save file v).perform fs = (.ok (), fs') → (load file).perform fs' = (.ok v, fs')) := by
  refine ⟨?_, fun h => (saved_of_save hexact h).contains.load⟩
  rw [perform_save_iff, hexact.halves_eq_nil]
  simp only [and_true]

/-- Line ends, quotes and letters beyond ASCII in a key and in a text, and containers in containers. -/
theorem load_of_save_nested :
    let v : Json := .obj [("é\r\"", .arr [.int (-10), .null, .bool true, .arr [], .obj []]), ("", .str "\\\r\n")]
    ∃ fs, (save "a" v).perform ⟨[], [], [], false⟩ = (.ok (), fs) ∧ (load "a").perform fs = (.ok v, fs) := by
  intro v
  have hnil : (Json.arr []).Exact := .arr (forall_mem_nil _)
  have hempty : (Json.obj []).Exact := .obj .nil rfl (forall_mem_nil _)
  have hexact : v.Exact := by
    refine .obj (by decide) rfl (forall_mem_cons.2 ⟨.arr ?_, forall_mem_singleton.2 (.str _)⟩)
    simp only [forall_mem_cons]
    exact ⟨.int _, .null, .bool _, hnil, hempty, forall_mem_nil _⟩
  let fs : Files := ⟨[(["a"], .file (.text v.writeFile))], [], [], false⟩
  obtain ⟨hsave, hload⟩ := load_of_save hexact "a" ⟨[], [], [], false⟩ fs
  have hsaved := hsave.2 ⟨by decide +kernel, rfl⟩
  exact ⟨fs, hsaved, hload hsaved⟩

/-- What a change writes has the time of it. -/
theorem save_of_saveAt {fields : Json.Fields} {v : Json}
    (h : (saveAt now file (.obj fields)).perform fs = (.ok v, fs')) :
    (save file (.obj (Json.setField "lastUpdated" (.str now) fields))).perform fs = (.ok (), fs') := by
  obtain ⟨w, hw, hrun⟩ := perform_shaped_bind_eq_ok h
  cases hw
  obtain ⟨u, fs₁, hsave, hreturn⟩ := perform_bind_eq_ok hrun
  cases hreturn
  exact hsave

/-- **A file that holds a value takes another one,** with the time of the change in it. -/
theorem Contains.exists_saveAt {v : Json} (h : Contains fs file v) (now : String) (fields : Json.Fields)
    (hexact : (Json.obj (Json.setField "lastUpdated" (.str now) fields)).Exact)
    (hwritable : (Json.obj (Json.setField "lastUpdated" (.str now) fields)).writable = true) :
    ∃ w fs', (saveAt now file (.obj fields)).perform fs = (.ok w, fs') ∧ fs.Keeps fs' := by
  obtain ⟨text, hread, -⟩ := h
  obtain ⟨names, c, hplace, -⟩ := Files.readText_eq_ok hread
  have hsave : (save file (.obj (Json.setField "lastUpdated" (.str now) fields))).perform fs = (.ok (), _) :=
    perform_save_iff.2 ⟨⟨hwritable, hexact.halves_eq_nil⟩, Files.writeText_of_file hplace _⟩
  exact ⟨_, _, perform_bind_ok hsave _, (saved_of_save hexact hsave).keeps⟩

theorem Contains.exists_saveFresh {v : Json} {fields : Json.Fields} (h : Contains fs file v) (now time : String)
    (hexact : (fresh now fields).Exact) (hwritable : (fresh now fields).writable = true) :
    ∃ w fs', (saveAt now file (fresh time fields)).perform fs = (.ok w, fs') ∧ fs.Keeps fs' :=
  h.exists_saveAt now _ hexact hwritable

theorem Contains.saveNew {v : Json} (h : Contains fs file v) (fields : Run Json.Fields) :
    (Store.saveNew now file fields).perform fs = (.ok (), fs) := by
  obtain ⟨text, hread, -⟩ := h
  rw [Store.saveNew, perform_bind_ok (perform_isThere (Files.find?_of_readText hread))]
  rfl

theorem save_of_saveNew {fields : Run Json.Fields} (hnone : fs.find? file = none)
    (h : (saveNew now file fields).perform fs = (.ok u, fs')) :
    ∃ new fs₁, fields.perform fs = (.ok new, fs₁) ∧
      (save file (fresh now new)).perform fs₁ = (.ok (), fs') := by
  obtain ⟨b, fs₁, hthere, hrun⟩ := perform_bind_eq_ok h
  obtain ⟨rfl, rfl⟩ := perform_isThere_eq_ok hthere hnone
  obtain ⟨new, fs₂, hfields, hsave⟩ := perform_bind_eq_ok hrun
  exact ⟨new, fs₂, hfields, hsave⟩

/-! ## The three files -/

theorem nameEnd_packages : Path.NameEnd "packages.json".toList := ⟨by decide, 'p', by decide⟩

theorem nameEnd_paths : Path.NameEnd "paths.json".toList := ⟨by decide, 'p', by decide⟩

theorem nameEnd_settings : Path.NameEnd "settings.json".toList := ⟨by decide, 's', by decide⟩

theorem apart_packages_paths (s : Store) : Path.Apart s.packagesFile s.pathsFile :=
  Path.apart_child nameEnd_packages nameEnd_paths (suffix_refl _) (suffix_refl _) (by decide)
    (by decide) _ _

theorem apart_packages_settings (s : Store) : Path.Apart s.packagesFile s.settingsFile :=
  Path.apart_child nameEnd_packages nameEnd_settings (suffix_refl _) (suffix_refl _) (by decide)
    (by decide) _ _

theorem apart_paths_settings (s : Store) : Path.Apart s.pathsFile s.settingsFile :=
  Path.apart_child nameEnd_paths nameEnd_settings (suffix_refl _) (suffix_refl _) (by decide)
    (by decide) _ _

end ScriptWorkbench.Settings.Store
