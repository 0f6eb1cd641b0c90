/-
What a theme that cannot be used leaves behind.

A fault is reported exactly if the file cannot be read as JSON or the value in it is no theme (`IsTheme`): a
language that is no object, or a rule of it without three parts, is enough. The palette is taken over before
the languages are looked at (`failed_theme_changes_palette`).
-/
import ScriptWorkbench.Studio.Configuration

namespace ScriptWorkbench.Studio

open List

section

variable {α β ε : Type}

theorem exists_bind_iff {x : Except ε α} {f : α → Except ε β} :
    (∃ b, (x >>= f) = .ok b) ↔ ∃ a, x = .ok a ∧ ∃ b, f a = .ok b := by
  constructor
  · rintro ⟨b, h⟩
    cases x with
    | error e => cases h
    | ok a => exact ⟨a, rfl, b, h⟩
  · rintro ⟨a, rfl, h⟩
    exact h

theorem exists_mapM_iff {f : α → Except ε β} {l : List α} :
    (∃ r, l.mapM f = .ok r) ↔ ∀ a ∈ l, ∃ b, f a = .ok b := by
  induction l with
  | nil => exact iff_of_true ⟨[], rfl⟩ fun _ h => by cases h
  | cons a l ih =>
    rw [mapM_cons, exists_bind_iff, forall_mem_cons, ← ih]
    constructor
    · rintro ⟨b, hb, h⟩
      exact ⟨⟨b, hb⟩, (exists_bind_iff.1 h).imp fun _ h => h.1⟩
    · rintro ⟨⟨b, hb⟩, r, hr⟩
      exact ⟨b, hb, exists_bind_iff.2 ⟨r, hr, _, rfl⟩⟩

end

theorem memberOr_eq_ok_iff {v default w : Json} {key : String} :
    v.memberOr key default = .ok w ↔ ∃ fields, v = .obj fields ∧ (fields.lookup (.whole key)).getD default = w := by
  cases v <;> simp [Json.memberOr]

theorem entries_eq_ok_iff {v : Json} {fields : Json.Fields} :
    v.entries = .ok fields ↔ v = .obj fields := by
  cases v <;> simp [Json.entries]

/-! ## Themes -/

def IsRule (v : Json) : Prop := ∀ place < 3, ∃ part, v.item place = .ok part

def IsLanguage (v : Json) : Prop :=
  ∃ fields rules, v = .obj fields ∧ ((fields.lookup (.whole "rules")).getD (.arr [])).elements = .ok rules ∧
    ∀ r ∈ rules, IsRule r

/-- An object whose languages, if it has any, are an object of languages. -/
def IsTheme (v : Json) : Prop :=
  ∃ fields languages, v = .obj fields ∧ (fields.lookup (.whole "languages")).getD (.obj []) = .obj languages ∧
    ∀ l ∈ languages, IsLanguage l.2

theorem exists_readRule_iff (v : Json) : (∃ r, readRule v = .ok r) ↔ IsRule v := by
  rw [readRule, exists_bind_iff]
  constructor
  · rintro ⟨a, ha, h⟩
    obtain ⟨b, hb, h⟩ := exists_bind_iff.1 h
    obtain ⟨c, hc, -⟩ := exists_bind_iff.1 h
    intro place hplace
    rcases place with _ | _ | _ | place
    · exact ⟨a, ha⟩
    · exact ⟨b, hb⟩
    · exact ⟨c, hc⟩
    · omega
  · intro h
    refine (h 0 (by decide)).imp fun a ha => ⟨ha, exists_bind_iff.2 ?_⟩
    refine (h 1 (by decide)).imp fun b hb => ⟨hb, exists_bind_iff.2 ?_⟩
    exact (h 2 (by decide)).imp fun c hc => ⟨hc, _, rfl⟩

theorem exists_readLanguage_iff (v : Json) : (∃ l, readLanguage v = .ok l) ↔ IsLanguage v := by
  rw [readLanguage, exists_bind_iff]
  constructor
  · rintro ⟨w, hw, h⟩
    obtain ⟨fields, rfl, rfl⟩ := memberOr_eq_ok_iff.1 hw
    obtain ⟨rules, hrules, h⟩ := exists_bind_iff.1 h
    refine ⟨fields, rules, rfl, hrules, fun r hr => (exists_readRule_iff r).1 ?_⟩
    exact exists_mapM_iff.1 ((exists_bind_iff.1 h).imp fun _ h => h.1) r hr
  · rintro ⟨fields, rules, rfl, hrules, hall⟩
    obtain ⟨rs, hrs⟩ := exists_mapM_iff.2 fun r hr => (exists_readRule_iff r).2 (hall r hr)
    exact ⟨_, rfl, exists_bind_iff.2 ⟨rules, hrules, exists_bind_iff.2 ⟨rs, hrs, _, rfl⟩⟩⟩

theorem exists_readLanguages_iff (v : Json) : (∃ new, readLanguages v = .ok new) ↔ IsTheme v := by
  have hentries (l : Json.Fields) :
      (∃ r, l.mapM (fun e => do pure (e.1, ← readLanguage e.2)) = .ok r) ↔
        ∀ e ∈ l, IsLanguage e.2 := by
    rw [exists_mapM_iff]
    refine forall₂_congr fun e _ => ?_
    rw [exists_bind_iff, ← exists_readLanguage_iff]
    exact exists_congr fun r => and_iff_left ⟨_, rfl⟩
  rw [readLanguages, exists_bind_iff]
  constructor
  · rintro ⟨w, hw, h⟩
    obtain ⟨fields, rfl, rfl⟩ := memberOr_eq_ok_iff.1 hw
    obtain ⟨languages, hlanguages, h⟩ := exists_bind_iff.1 h
    exact ⟨fields, languages, rfl, entries_eq_ok_iff.1 hlanguages, (hentries languages).1 h⟩
  · rintro ⟨fields, languages, rfl, hlanguages, hall⟩
    exact ⟨_, rfl, exists_bind_iff.2 ⟨languages, entries_eq_ok_iff.2 hlanguages, (hentries languages).2 hall⟩⟩

namespace Configuration

theorem startsWith_append {s p : String} (h : Text.startsWith s p = true) (t : String) :
    Text.startsWith (s ++ t) p = true := by
  rw [Text.startsWith, Text.isSome_dropPrefix?_iff] at h ⊢
  rw [String.toList_append]
  exact h.trans (prefix_append _ _)

theorem report_fault_iff {path read missing empty broken : String} {r : Except Settings.Failure Unit} :
    Text.startsWith (report path read missing empty broken r) "ERROR" = true ↔ r ≠ .ok () := by
  unfold report
  split
  next =>
    refine iff_of_false (fun h => ?_) fun h => h rfl
    rw [Text.startsWith, Text.isSome_dropPrefix?_iff] at h
    obtain ⟨rest, hrest⟩ := h
    have hfirst := congrArg (take 1) hrest
    simp only [String.toList_append, append_assoc] at hfirst
    rw [take_append_of_le_length (by decide +kernel), take_append_of_le_length (by decide +kernel)] at hfirst
    exact absurd hfirst (by decide +kernel)
  next =>
    refine iff_of_true ?_ (by simp)
    iterate 6 refine startsWith_append ?_ _
    decide +kernel
  next =>
    refine iff_of_true ?_ (by simp)
    iterate 4 refine startsWith_append ?_ _
    decide +kernel

def paletteFrom (old : Json) : Json → Json
  | .obj fields => (fields.lookup (.whole "palette")).getD (.obj [])
  | _ => old

theorem takeTheme_of_isTheme {v : Json} (h : IsTheme v) (c : Configuration) :
    (takeTheme c v).2 = .ok () := by
  obtain ⟨new, hnew⟩ := (exists_readLanguages_iff v).2 h
  obtain ⟨fields, _, rfl, -⟩ := h
  simp [takeTheme, Json.memberOr, hnew]

theorem takeTheme_of_not_isTheme {v : Json} (h : ¬IsTheme v) (c : Configuration) :
    ∃ e, takeTheme c v = ({ c with palette := paletteFrom c.palette v }, .error e) := by
  rw [← exists_readLanguages_iff] at h
  cases v with
  | obj fields =>
    cases hnew : readLanguages (.obj fields) with
    | error e => exact ⟨e, by simp [takeTheme, Json.memberOr, hnew, paletteFrom]⟩
    | ok new => exact absurd ⟨new, hnew⟩ h
  | _ => exact ⟨_, rfl⟩

/-- **A fault in a theme** is reported exactly if no theme was read. Then nothing but the palette has
changed, and the palette has, unless no object was read or the old palette was in it. -/
theorem failed_theme_changes_palette (fs : Files) (path : String) (c : Configuration) :
    (Text.startsWith (loadTheme fs path c).2 "ERROR" = true ↔
        ∀ v, readResource fs path = .ok v → ¬IsTheme v) ∧
      (Text.startsWith (loadTheme fs path c).2 "ERROR" = true →
        (∀ e, readResource fs path = .error e → (loadTheme fs path c).1 = c) ∧
        (∀ v, readResource fs path = .ok v →
          (loadTheme fs path c).1 = { c with palette := paletteFrom c.palette v } ∧
          ((loadTheme fs path c).1 = c ↔ paletteFrom c.palette v = c.palette))) := by
  have hshape (r : Except Json.AccessError Unit) :
      r.mapError Settings.Failure.shape = .ok () ↔ r = .ok () := by
    cases r <;> constructor <;> intro h <;> cases h <;> rfl
  rw [loadTheme, report_fault_iff, takeFile]
  cases readResource fs path with
  | error e => simp
  | ok v =>
    by_cases hv : IsTheme v
    · simp [takeTheme_of_isTheme hv, hv, hshape]
    · obtain ⟨e, he⟩ := takeTheme_of_not_isTheme hv c
      have hsame : { c with palette := paletteFrom c.palette v } = c ↔ paletteFrom c.palette v = c.palette :=
        ⟨congrArg palette, fun h => by rw [h]⟩
      simp [he, hv, hshape, hsame]

/-- With languages in a list and not in an object, a theme is a fault, but its palette stays. -/
theorem palette_of_failed_theme :
    takeTheme .initial (.obj [("palette", .obj [("text", .str "#FFFFFF")]), ("languages", .arr [])]) =
      ({ Configuration.initial with palette := .obj [("text", .str "#FFFFFF")] },
        .error (.noOperation "list" "items")) :=
  rfl

end Configuration

end ScriptWorkbench.Studio
