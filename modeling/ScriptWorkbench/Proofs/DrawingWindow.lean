/-
The life of the drawing window, and of the canvas in it, whatever the window system refuses.

The window is kept well (`window_life_cycle`): it is made only when there is none, and is not spoken to when
it is not there. The canvas is not (`canvas_in_its_window_iff`): closing the window forgets the window only,
so from then on drawing is counted although there is no window, and no later window ever gets a canvas.
-/
import ScriptWorkbench.CommandLine.Run
import ScriptWorkbench.Proofs.Actions

namespace ScriptWorkbench

open List

namespace Drawing

/-! ## Operations one after another -/

/-- An operation, with what the window system answers to its calls. -/
abbrev Op := Command × Answers

/-- What operations leave behind, the calls that were taken and the failures of operations. -/
structure Run where
  state : State
  calls : List Call
  failures : List (Command × Failure)

def run (s : State) : List Op → Run
  | [] => ⟨s, [], []⟩
  | op :: rest =>
    let o := step op.2 s op.1
    let r := run o.state rest
    ⟨r.state, o.calls ++ r.calls, o.failure.toList.map (op.1, ·) ++ r.failures⟩

section

variable (s : State) (op : Op) (rest : List Op)

theorem state_run_cons : (run s (op :: rest)).state = (run (step op.2 s op.1).state rest).state := rfl

theorem calls_run_cons : (run s (op :: rest)).calls =
    (step op.2 s op.1).calls ++ (run (step op.2 s op.1).state rest).calls := rfl

theorem failures_run_cons : (run s (op :: rest)).failures =
    (step op.2 s op.1).failure.toList.map (op.1, ·) ++ (run (step op.2 s op.1).state rest).failures := rfl

end

/-! ## Sorts of operations and calls -/

def Command.quits : Command → Bool
  | .quit => true
  | _ => false

def Command.draws : Command → Bool
  | .point .. | .circle .. => true
  | _ => false

def Command.updates : Command → Bool
  | .update => true
  | _ => false

/-- A drawing has whole numbers for coordinates, and a colour that can be looked up, as every name can.
Other operations may have any values. -/
def Command.onGrid : Command → Bool
  | .point x y color => x.whole?.isSome && y.whole?.isSome && (colorOf color).isOk
  | .circle x y radius color =>
    x.whole?.isSome && y.whole?.isSome && radius.whole?.isSome && (colorOf color).isOk
  | _ => true

def Call.makesWindow : Call → Bool
  | .makeWindow => true
  | _ => false

def Call.destroysWindow : Call → Bool
  | .destroyWindow => true
  | _ => false

def Call.makesCanvas : Call → Bool
  | .makeCanvas .. => true
  | _ => false

def Call.drawsOval : Call → Bool
  | .oval .. => true
  | _ => false

def Call.refreshes : Call → Bool
  | .refresh => true
  | _ => false

/-! ## What one operation does -/

section

variable (a : Answers) (s : State)

theorem start_cases : s.hasWindow = true ∧ start a s = unchanged s ∨ s.hasWindow = false ∧
    ((∃ m, a .makeWindow = some m ∧ start a s = ⟨s, [], "", some (.refused .makeWindow m)⟩) ∨
      (∃ m, a .hideWindow = some m ∧ start a s =
        ⟨{ s with hasWindow := true }, [.makeWindow], "", some (.refused .hideWindow m)⟩) ∨
      ∃ text, start a s =
        ⟨{ s with hasWindow := true, running := true }, [.makeWindow, .hideWindow], text, none⟩) := by
  unfold start ask
  cases s.hasWindow with
  | true => exact .inl ⟨rfl, rfl⟩
  | false =>
    refine .inr ⟨rfl, ?_⟩
    cases a .makeWindow with
    | some m => exact .inl ⟨m, rfl, rfl⟩
    | none =>
      cases a .hideWindow with
      | some m => exact .inr (.inl ⟨m, rfl, rfl⟩)
      | none => exact .inr (.inr ⟨_, rfl⟩)

theorem ovalOf_eq_ok {x y radius color : Json} {call : Call} (h : ovalOf x y radius color = .ok call) :
    ∃ a b c d name, call = .oval a b c d name := by
  unfold ovalOf at h
  -- where one of the values cannot be found, there is no call
  generalize colorOf color = name, x.minus radius = a, y.minus radius = b, x.plus radius = c,
    y.plus radius = d at h
  rcases name with _ | name
  · cases h
  rcases a with _ | a
  · cases h
  rcases b with _ | b
  · cases h
  rcases c with _ | c
  · cases h
  rcases d with _ | d
  · cases h
  exact ⟨a, b, c, d, name, (Except.ok.inj h).symm⟩

theorem disc_cases (x y radius color : Json) :
    s.hasCanvas = false ∧ disc a s x y radius color = unchanged s ∨ s.hasCanvas = true ∧
      ((∃ f, disc a s x y radius color = ⟨{ s with drawCount := s.drawCount + 1 }, [], "", some f⟩ ∧
          ((∃ e, ovalOf x y radius color = .error e) ∨ ∃ call, call.drawsOval = true ∧ a call ≠ none)) ∨
        ∃ call, call.drawsOval = true ∧
          disc a s x y radius color = ⟨{ s with drawCount := s.drawCount + 1 }, [call], "", none⟩) := by
  unfold disc ask
  cases s.hasCanvas with
  | false => exact .inl ⟨rfl, rfl⟩
  | true =>
    refine .inr ⟨rfl, ?_⟩
    cases hoval : ovalOf x y radius color with
    | error e => exact .inl ⟨.value e, rfl, .inl ⟨e, rfl⟩⟩
    | ok call =>
      obtain ⟨_, _, _, _, _, rfl⟩ := ovalOf_eq_ok hoval
      dsimp only
      cases hcall : a (.oval _ _ _ _ _) with
      | some m => exact .inl ⟨_, rfl, .inr ⟨_, rfl, by rw [hcall]; nofun⟩⟩
      | none => exact .inr ⟨_, rfl, rfl⟩

theorem update_cases : s.hasWindow = false ∧ update a s = unchanged s ∨ s.hasWindow = true ∧
    ((∃ m, a .refresh = some m ∧ update a s =
        ⟨{ s with updateCount := s.updateCount + 1 }, [], "", some (.refused .refresh m)⟩) ∨
      ∃ text, update a s = ⟨{ s with updateCount := s.updateCount + 1 }, [.refresh], text, none⟩) := by
  unfold update ask
  cases s.hasWindow with
  | false => exact .inl ⟨rfl, rfl⟩
  | true =>
    refine .inr ⟨rfl, ?_⟩
    cases a .refresh with
    | some m => exact .inl ⟨m, rfl, rfl⟩
    | none => exact .inr ⟨_, rfl⟩

end

/-! ## What the calls amount to -/

/-- Whether there are a window and a canvas. -/
def State.holds (s : State) : Bool × Bool := (s.hasWindow, s.hasCanvas)

/-- Whether there are a window and a canvas after a call, given whether there were before it. There is no
answer where the call makes a second one or needs one that is not there. -/
def follow (there : Bool × Bool) : Call → Option (Bool × Bool)
  | .makeWindow => if there.1 then none else some (true, there.2)
  | .destroyWindow => if there.1 then some (false, there.2) else none
  | .makeCanvas .. => if there.1 && !there.2 then some (true, true) else none
  | .hideWindow | .showWindow | .setTitle _ | .refresh => if there.1 then some there else none
  | .packCanvas | .resizeCanvas .. | .oval .. => if there.2 then some there else none

/-- **What an operation does:** its calls can be followed, a drawing or a refreshing that fails is counted,
and the window runs while it is there unless it could not be hidden. -/
structure Accounts (s : State) (c : Command) (o : Outcome) : Prop where
  followed : o.calls.foldlM follow s.holds = some o.state.holds
  running : (∀ m, o.failure ≠ some (.refused .hideWindow m)) → s.running = s.hasWindow →
    o.state.running = o.state.hasWindow
  drawn : o.state.drawCount = s.drawCount + o.calls.countP Call.drawsOval +
    if c.draws then o.failure.toList.length else 0
  refreshed : o.state.updateCount = s.updateCount + o.calls.countP Call.refreshes +
    if c.updates then o.failure.toList.length else 0
  opened : c.quits = false → o.calls.any Call.destroysWindow = false

section

variable {a : Answers} {s : State}

theorem accounts_unchanged (c : Command) : Accounts s c (unchanged s) where
  followed := rfl
  running := fun _ h => h
  drawn := by cases c <;> rfl
  refreshed := by cases c <;> rfl
  opened := fun _ => rfl

theorem accounts_start {c : Command} (hdraws : c.draws = false) (hupdates : c.updates = false) :
    Accounts s c (start a s) := by
  obtain ⟨-, h⟩ | ⟨hw, ⟨m, -, h⟩ | ⟨m, -, h⟩ | ⟨text, h⟩⟩ := start_cases a s <;> rw [h]
  · exact accounts_unchanged c
  · exact ⟨rfl, fun _ h => h, by rw [hdraws]; rfl, by rw [hupdates]; rfl, fun _ => rfl⟩
  · exact ⟨by rw [State.holds, hw]; rfl, fun h => absurd rfl (h m), by rw [hdraws]; rfl, by rw [hupdates]; rfl,
      fun _ => rfl⟩
  · exact ⟨by rw [State.holds, hw]; rfl, fun _ _ => rfl, by rw [hdraws]; rfl, by rw [hupdates]; rfl,
      fun _ => rfl⟩

theorem hasWindow_start (h : (start a s).failure = none) : (start a s).state.hasWindow = true := by
  obtain ⟨hw, hs⟩ | ⟨-, ⟨m, -, hs⟩ | ⟨m, -, hs⟩ | ⟨text, hs⟩⟩ := start_cases a s <;> rw [hs] at h ⊢
  · exact hw
  · cases h

theorem accounts_setup (width height title : Json) :
    Accounts s (.setup width height title) (setup a s width height title) := by
  have hstart := accounts_start (a := a) (s := s) (c := .setup width height title) rfl rfl
  unfold setup Outcome.andThen
  split
  next => exact hstart
  next hnone =>
    have hwindow := hasWindow_start hnone
    -- wherever the rest stops, it has only spoken to the window and the canvas that are there
    dsimp only [ask, fitCanvas]
    repeat' split
    all_goals
      refine ⟨?_, fun _ hs => hstart.running (by rw [hnone]; nofun) hs, ?_, ?_, fun _ => ?_⟩
      · rw [foldlM_append, hstart.followed]
        simp [follow, State.holds, *]
      · rw [countP_append]
        exact hstart.drawn
      · rw [countP_append]
        exact hstart.refreshed
      · rw [any_append, hstart.opened rfl]
        rfl

theorem accounts_disc {c : Command} (hdraws : c.draws = true) (hupdates : c.updates = false)
    (x y radius color : Json) : Accounts s c (disc a s x y radius color) := by
  obtain ⟨-, h⟩ | ⟨hc, ⟨f, h, -⟩ | ⟨call, hcall, h⟩⟩ := disc_cases a s x y radius color <;> rw [h]
  · exact accounts_unchanged c
  · exact ⟨rfl, fun _ h => h, by rw [hdraws]; rfl, by rw [hupdates]; rfl, fun _ => rfl⟩
  · cases call with
    | oval => exact ⟨by simp [follow, State.holds, hc], fun _ h => h, by rw [hdraws]; rfl,
        by rw [hupdates]; rfl, fun _ => rfl⟩
    | _ => cases hcall

theorem accounts_step (s : State) (op : Op) : Accounts s op.1 (step op.2 s op.1) := by
  obtain ⟨c, a⟩ := op
  cases c with
  | start => exact accounts_start rfl rfl
  | setup width height title => exact accounts_setup width height title
  | point x y color => exact accounts_disc rfl rfl x y (.int 1) color
  | circle x y radius color => exact accounts_disc rfl rfl x y radius color
  | quit =>
    cases hw : s.hasWindow <;> rw [step, quit, hw]
    · exact accounts_unchanged _
    · exact ⟨by rw [State.holds, hw]; rfl, fun _ _ => rfl, rfl, rfl, nofun⟩
  | update =>
    obtain ⟨-, h⟩ | ⟨hw, ⟨m, -, h⟩ | ⟨text, h⟩⟩ := update_cases a s <;> rw [step, h]
    · exact accounts_unchanged _
    · exact ⟨rfl, fun _ h => h, rfl, rfl, fun _ => rfl⟩
    · exact ⟨by simp [follow, State.holds, hw], fun _ h => h, rfl, rfl, fun _ => rfl⟩

end

/-! ## Whole runs -/

/-- **The calls of a run can be followed,** and what is known of window and canvas in the end is true. -/
theorem follow_run (s : State) (ops : List Op) :
    (run s ops).calls.foldlM follow s.holds = some (run s ops).state.holds := by
  induction ops generalizing s with
  | nil => rfl
  | cons op rest ih =>
    rw [calls_run_cons, foldlM_append, (accounts_step s op).followed]
    exact ih (step op.2 s op.1).state

/-- Windows are made and destroyed in turn, and a canvas that was made is there from then on. -/
theorem holds_of_follow {calls : List Call} {before after : Bool × Bool}
    (h : calls.foldlM follow before = some after) :
    calls.countP Call.makesWindow + before.1.toNat = calls.countP Call.destroysWindow + after.1.toNat ∧
      after.2 = (before.2 || calls.any Call.makesCanvas) := by
  induction calls generalizing before with
  | nil =>
    cases h
    exact ⟨rfl, (Bool.or_false _).symm⟩
  | cons c calls ih =>
    obtain ⟨between, hc, hcalls⟩ := Option.bind_eq_some_iff.1 h
    obtain ⟨hwindows, hcanvas⟩ := ih hcalls
    -- a call makes a window, destroys one or leaves the window as it is
    have hone : (if c.makesWindow then 1 else 0) + before.1.toNat =
        (if c.destroysWindow then 1 else 0) + between.1.toNat ∧ between.2 = (before.2 || c.makesCanvas) := by
      obtain ⟨_ | _, _ | _⟩ := before <;> cases c <;> cases hc <;> exact ⟨rfl, rfl⟩
    rw [countP_cons, countP_cons, hcanvas, hone.2, any_cons, Bool.or_assoc]
    exact ⟨by omega, rfl⟩

theorem exists_follow_of_prefix {earlier calls : List Call} {before after : Bool × Bool}
    (h : calls.foldlM follow before = some after) (hearlier : earlier <+: calls) :
    ∃ between, earlier.foldlM follow before = some between := by
  obtain ⟨later, rfl⟩ := hearlier
  rw [foldlM_append] at h
  obtain ⟨between, hbetween, -⟩ := Option.bind_eq_some_iff.1 h
  exact ⟨between, hbetween⟩

/-- **The counters of a run:** a drawing that is counted drew an oval or failed, and likewise a refreshing. -/
theorem counters_run (s : State) (ops : List Op) :
    (run s ops).state.drawCount = s.drawCount +
        (run s ops).calls.countP Call.drawsOval + (run s ops).failures.countP (·.1.draws) ∧
      (run s ops).state.updateCount = s.updateCount + (run s ops).calls.countP Call.refreshes +
        (run s ops).failures.countP (·.1.updates) := by
  induction ops generalizing s with
  | nil => exact ⟨rfl, rfl⟩
  | cons op rest ih =>
    have haccounts := accounts_step s op
    have hdrawn := haccounts.drawn
    have hrefreshed := haccounts.refreshed
    obtain ⟨hdraw, hupdate⟩ := ih (step op.2 s op.1).state
    have hfailed (p : Command → Bool) (f : Option Failure) : (f.toList.map (op.1, ·)).countP (fun g => p g.1) =
        if p op.1 then f.toList.length else 0 := by
      cases f <;> simp [countP_cons]
    rw [state_run_cons, calls_run_cons, failures_run_cons, countP_append, countP_append, countP_append,
      countP_append, hfailed, hfailed]
    constructor <;> omega

theorem running_run (s : State) (ops : List Op) (hs : s.running = s.hasWindow)
    (h : ∀ f ∈ (run s ops).failures, ∀ m, f.2 ≠ .refused .hideWindow m) :
    (run s ops).state.running = (run s ops).state.hasWindow := by
  induction ops generalizing s with
  | nil => exact hs
  | cons op rest ih =>
    obtain ⟨hfirst, hrest⟩ := forall_mem_append.1 h
    refine ih _ ((accounts_step s op).running (fun m hm => ?_) hs) hrest
    rw [hm] at hfirst
    exact hfirst _ mem_cons_self m rfl

/-! ## Whole coordinates -/

theorem reckon_of_whole {symbol : String} {onWhole : Int → Int → Int}
    {onReal : Number.Binary64 → Number.Binary64 → Number.Binary64} {a b : Json}
    (ha : a.whole?.isSome = true) (hb : b.whole?.isSome = true) :
    ∃ n, Json.reckon symbol onWhole onReal a b = .ok (.int n) := by
  obtain ⟨m, hm⟩ := Option.isSome_iff_exists.1 ha
  obtain ⟨n, hn⟩ := Option.isSome_iff_exists.1 hb
  refine ⟨onWhole m n, ?_⟩
  unfold Json.reckon
  rw [hm, hn]

theorem exists_ovalOf {x y radius color : Json} (hx : x.whole?.isSome = true)
    (hy : y.whole?.isSome = true) (hradius : radius.whole?.isSome = true)
    (hcolor : (colorOf color).isOk = true) : ∃ call, ovalOf x y radius color = .ok call := by
  obtain ⟨a, ha⟩ : ∃ n, x.minus radius = .ok (.int n) := reckon_of_whole hx hradius
  obtain ⟨b, hb⟩ : ∃ n, y.minus radius = .ok (.int n) := reckon_of_whole hy hradius
  obtain ⟨c, hc⟩ : ∃ n, x.plus radius = .ok (.int n) := reckon_of_whole hx hradius
  obtain ⟨d, hd⟩ : ∃ n, y.plus radius = .ok (.int n) := reckon_of_whole hy hradius
  unfold ovalOf
  cases hname : colorOf color with
  | error e =>
    rw [hname] at hcolor
    cases hcolor
  | ok name =>
    rw [ha, hb, hc, hd]
    exact ⟨_, rfl⟩

theorem failure_disc {a : Answers} {x y radius color : Json} (hoval : ∃ call, ovalOf x y radius color = .ok call)
    (htaken : ∀ call : Call, call.drawsOval = true → a call = none) (s : State) :
    (disc a s x y radius color).failure = none := by
  obtain ⟨-, h⟩ | ⟨-, ⟨f, -, ⟨e, he⟩ | ⟨call, hcall, hrefused⟩⟩ | ⟨call, -, h⟩⟩ := disc_cases a s x y radius color
  · rw [h]
    rfl
  · obtain ⟨call, hcall⟩ := hoval
    rw [hcall] at he
    cases he
  · exact absurd (htaken call hcall) hrefused
  · rw [h]

theorem failure_step_of_onGrid {op : Op} (hgrid : op.1.onGrid = true)
    (htaken : ∀ call : Call, call.drawsOval = true → op.2 call = none) (hdraws : op.1.draws = true) (s : State) :
    (step op.2 s op.1).failure = none := by
  obtain ⟨c, a⟩ := op
  cases c with
  | point x y color =>
    rw [Command.onGrid, Bool.and_eq_true, Bool.and_eq_true] at hgrid
    exact failure_disc (exists_ovalOf hgrid.1.1 hgrid.1.2 rfl hgrid.2) htaken s
  | circle x y radius color =>
    rw [Command.onGrid, Bool.and_eq_true, Bool.and_eq_true, Bool.and_eq_true] at hgrid
    exact failure_disc (exists_ovalOf hgrid.1.1.1 hgrid.1.1.2 hgrid.1.2 hgrid.2) htaken s
  | _ => cases hdraws

theorem failure_update {a : Answers} (h : a .refresh = none) (s : State) : (update a s).failure = none := by
  obtain ⟨-, hs⟩ | ⟨-, ⟨m, hm, -⟩ | ⟨text, hs⟩⟩ := update_cases a s
  · rw [hs]
    rfl
  · rw [h] at hm
    cases hm
  · rw [hs]

/-- A sort of operation that never fails is not among the failures of a run. -/
theorem countP_failures_run {ops : List Op} {p : Command → Bool}
    (h : ∀ op ∈ ops, p op.1 = true → ∀ s, (step op.2 s op.1).failure = none) (s : State) :
    (run s ops).failures.countP (p ·.1) = 0 := by
  induction ops generalizing s with
  | nil => rfl
  | cons op rest ih =>
    obtain ⟨hop, hrest⟩ := forall_mem_cons.1 h
    rw [failures_run_cons, countP_append, ih hrest, Nat.add_zero, countP_eq_zero]
    intro f hf hp
    obtain ⟨e, he, rfl⟩ := mem_map.1 hf
    rw [hop hp s] at he
    cases he

/-! ## The canvas -/

/-- What calls amount to, where windows are numbered as they are made: how many were made, the one that is
there, and the one that the latest canvas was made in. -/
structure Scene where
  made : Nat
  window : Option Nat
  home : Option Nat

def Scene.empty : Scene := ⟨0, none, none⟩

def Scene.next (v : Scene) : Call → Scene
  | .makeWindow => { v with made := v.made + 1, window := some v.made }
  | .destroyWindow => { v with window := none }
  | .makeCanvas .. => { v with home := v.window }
  | _ => v

def Scene.after (v : Scene) (calls : List Call) : Scene := calls.foldl Scene.next v

def Scene.Whole (v : Scene) : Prop := ∀ k, v.home = some k → v.window = some k

/-- A scene is what is known of the window and the canvas. A window that is made later has another number
than those there are. -/
structure Scene.Shows (v : Scene) (there : Bool × Bool) : Prop where
  window : v.window.isSome = there.1
  home : v.home.isSome = there.2
  window_lt : ∀ k, v.window = some k → k < v.made
  home_lt : ∀ k, v.home = some k → k < v.made

section

variable {v : Scene} {s : State} {there there' : Bool × Bool}

theorem Scene.after_append (calls calls' : List Call) :
    v.after (calls ++ calls') = (v.after calls).after calls' :=
  foldl_append

/-- Without a window, a canvas is in no window. -/
theorem Scene.Shows.whole_iff (h : v.Shows there) (hwindow : there.1 = false) : v.Whole ↔ there.2 = false := by
  have hnone : v.window = none := Option.isNone_iff_eq_none.1 (by rw [← Option.not_isSome, h.window, hwindow]; rfl)
  rw [← h.home, Scene.Whole, hnone]
  cases v.home <;> simp

theorem Scene.Shows.whole (h : v.Shows there) (hcanvas : there.2 = false) : v.Whole := by
  intro k hk
  have hhome := h.home
  rw [hk, hcanvas] at hhome
  cases hhome

theorem shows_initial : Scene.empty.Shows State.initial.holds where
  window := rfl
  home := rfl
  window_lt k hk := by cases hk
  home_lt k hk := by cases hk

/-- **A call that can be followed keeps the scene true.** Only closing the window can tear the canvas out of
it. -/
theorem Scene.Shows.next {call : Call} (h : v.Shows there) (hcall : follow there call = some there') :
    (v.next call).Shows there' ∧ (call.destroysWindow = false → ((v.next call).Whole ↔ v.Whole)) := by
  obtain ⟨window, canvas⟩ := there
  cases call with
  | makeWindow =>
    cases window <;> cases hcall
    have hnext : (v.next .makeWindow).Shows (true, canvas) := by
      refine ⟨rfl, h.home, ?_, fun k hk => Nat.lt_succ_of_lt (h.home_lt k hk)⟩
      rintro k ⟨⟩
      exact Nat.lt_succ_self _
    refine ⟨hnext, fun _ => ?_⟩
    rw [h.whole_iff rfl]
    constructor
    · -- the window of the canvas would be the new one
      intro hwhole
      cases hhome : v.home with
      | none => rw [← h.home, hhome]; rfl
      | some k =>
        have hlt := h.home_lt k hhome
        cases hwhole k hhome
        exact absurd hlt (Nat.lt_irrefl _)
    · exact fun hcanvas => hnext.whole hcanvas
  | destroyWindow =>
    cases window <;> cases hcall
    exact ⟨⟨rfl, h.home, by rintro k ⟨⟩, h.home_lt⟩, nofun⟩
  | makeCanvas =>
    cases window <;> cases canvas <;> cases hcall
    exact ⟨⟨h.window, h.window, h.window_lt, h.window_lt⟩, fun _ => iff_of_true (fun k hk => hk) (h.whole rfl)⟩
  | hideWindow | showWindow | setTitle | refresh | packCanvas | resizeCanvas | oval =>
    cases window <;> cases canvas <;> cases hcall <;> exact ⟨h, fun _ => Iff.rfl⟩

theorem Scene.Shows.after {calls : List Call} (h : v.Shows there)
    (hcalls : calls.foldlM follow there = some there') : (v.after calls).Shows there' ∧
      (calls.any Call.destroysWindow = false → ((v.after calls).Whole ↔ v.Whole)) := by
  induction calls generalizing v there with
  | nil =>
    cases hcalls
    exact ⟨h, fun _ => Iff.rfl⟩
  | cons call calls ih =>
    obtain ⟨between, hcall, hrest⟩ := Option.bind_eq_some_iff.1 hcalls
    obtain ⟨hnext, hwhole⟩ := h.next hcall
    obtain ⟨hafter, hwhole'⟩ := ih hnext hrest
    refine ⟨hafter, fun hopen => ?_⟩
    rw [any_cons, Bool.or_eq_false_iff] at hopen
    exact (hwhole' hopen.2).trans (hwhole hopen.1)

theorem shows_step (h : v.Shows s.holds) (op : Op) :
    (v.after (step op.2 s op.1).calls).Shows (step op.2 s op.1).state.holds ∧
      ((v.after (step op.2 s op.1).calls).Whole ↔ if op.1.quits then s.hasCanvas = false else v.Whole) := by
  obtain ⟨hshows, hwhole⟩ := h.after (accounts_step s op).followed
  refine ⟨hshows, ?_⟩
  cases hquits : op.1.quits with
  | false => exact hwhole ((accounts_step s op).opened hquits)
  | true =>
    obtain ⟨c, a⟩ := op
    cases c with
    | quit =>
      have hleft : (quit s).state.holds = (false, s.hasCanvas) := by
        cases hw : s.hasWindow <;> simp [quit, hw, unchanged, State.holds]
      rw [step, hleft] at hshows
      exact hshows.whole_iff rfl
    | _ => cases hquits

end

/-- The window is no trouble: it can be made, hidden, shown and named. All other calls may be refused. -/
def Answers.Lenient (a : Answers) : Prop :=
  a .makeWindow = none ∧ a .hideWindow = none ∧ a .showWindow = none ∧ ∀ title, a (.setTitle title) = none

/-- A set-up for which the window system would make a canvas. -/
def Op.setsUp : Op → Bool
  | (.setup width height _, answers) => (answers (.makeCanvas width height background)).isNone
  | _ => false

theorem start_of_lenient {a : Answers} (h : a.Lenient) (s : State) :
    (start a s).failure = none ∧ (start a s).state.hasCanvas = s.hasCanvas ∧
      (start a s).calls.any Call.makesCanvas = false := by
  obtain ⟨-, hs⟩ | ⟨-, ⟨m, hm, -⟩ | ⟨m, hm, -⟩ | ⟨text, hs⟩⟩ := start_cases a s
  · rw [hs]
    exact ⟨rfl, rfl, rfl⟩
  · rw [h.1] at hm
    cases hm
  · rw [h.2.1] at hm
    cases hm
  · rw [hs]
    exact ⟨rfl, rfl, rfl⟩

/-- **A canvas is made by the first set-up for which there can be one.** -/
theorem makesCanvas_step {op : Op} (ha : op.2.Lenient) (s : State) :
    (step op.2 s op.1).calls.any Call.makesCanvas = (!s.hasCanvas && op.setsUp) := by
  obtain ⟨c, a⟩ := op
  change a.Lenient at ha
  have hdisc (x y radius color : Json) : (disc a s x y radius color).calls.any Call.makesCanvas = false := by
    obtain ⟨-, h⟩ | ⟨-, ⟨f, h, -⟩ | ⟨call, hcall, h⟩⟩ := disc_cases a s x y radius color <;> rw [h]
    · rfl
    · rfl
    · cases call <;> first | rfl | cases hcall
  obtain ⟨hnone, hcanvas, hfew⟩ := start_of_lenient ha s
  cases c with
  | setup width height title =>
    simp only [step, setup, Outcome.andThen, hnone, ask, ha.2.2.1, ha.2.2.2, fitCanvas, hcanvas, any_append,
      hfew, Bool.false_or, Op.setsUp]
    cases s.hasCanvas with
    | true => cases a (.resizeCanvas width height) <;> rfl
    | false =>
      cases a (.makeCanvas width height background) with
      | some m => rfl
      | none => cases a .packCanvas <;> rfl
  | start => exact hfew.trans (Bool.and_false _).symm
  | quit => cases hw : s.hasWindow <;> simp [step, quit, hw, unchanged, Op.setsUp, Call.makesCanvas]
  | point x y color => exact (hdisc x y (.int 1) color).trans (Bool.and_false _).symm
  | circle x y radius color => exact (hdisc x y radius color).trans (Bool.and_false _).symm
  | update =>
    obtain ⟨-, h⟩ | ⟨-, ⟨m, -, h⟩ | ⟨text, h⟩⟩ := update_cases a s <;>
      simp [step, h, unchanged, Op.setsUp, Call.makesCanvas]

theorem hasCanvas_step {op : Op} (ha : op.2.Lenient) (s : State) :
    (step op.2 s op.1).state.hasCanvas = (s.hasCanvas || op.setsUp) := by
  refine (holds_of_follow (accounts_step s op).followed).2.trans ?_
  rw [makesCanvas_step ha]
  change (s.hasCanvas || _) = _
  cases s.hasCanvas <;> rfl

theorem disc_eq_unchanged_iff (a : Answers) (s : State) (x y radius color : Json) :
    disc a s x y radius color = unchanged s ↔ s.hasCanvas = false := by
  have hcounted {o : Outcome} (hc : s.hasCanvas = true)
      (h : o.state.drawCount = s.drawCount + 1) : o = unchanged s ↔ s.hasCanvas = false := by
    rw [hc]
    refine iff_of_false ?_ (by decide)
    intro heq
    -- the counter of what is left behind would be its own successor
    rw [heq] at h
    exact absurd h (Nat.ne_of_lt (Nat.lt_succ_self _))
  obtain ⟨hc, h⟩ | ⟨hc, ⟨f, h, -⟩ | ⟨call, -, h⟩⟩ := disc_cases a s x y radius color
  · exact iff_of_true h hc
  · rw [h]
    exact hcounted hc rfl
  · rw [h]
    exact hcounted hc rfl

theorem hasCanvas_run {ops : List Op} (ha : ∀ op ∈ ops, op.2.Lenient) (s : State) :
    (run s ops).state.hasCanvas = (s.hasCanvas || ops.any Op.setsUp) := by
  induction ops generalizing s with
  | nil => exact (Bool.or_false _).symm
  | cons op rest ih =>
    obtain ⟨hop, hrest⟩ := forall_mem_cons.1 ha
    rw [state_run_cons, ih hrest, hasCanvas_step hop s, Bool.or_assoc, any_cons]

def quitsAfterSetup : List Op → Bool
  | [] => false
  | op :: rest => if op.setsUp then rest.any (·.1.quits) else quitsAfterSetup rest

/-- **The scene after a run** is what is known of the window and the canvas. A canvas that was there is in its
window unless something was closed; one that is set up on the way must not be followed by closing. -/
theorem shows_run {v : Scene} {s : State} {ops : List Op} (ha : ∀ op ∈ ops, op.2.Lenient)
    (h : v.Shows s.holds) : (v.after (run s ops).calls).Shows (run s ops).state.holds ∧
      ((v.after (run s ops).calls).Whole ↔
        if s.hasCanvas then v.Whole ∧ ops.any (·.1.quits) = false else quitsAfterSetup ops = false) := by
  induction ops generalizing v s with
  | nil =>
    refine ⟨h, ?_⟩
    cases hcanvas : s.hasCanvas
    · exact iff_of_true (h.whole hcanvas) rfl
    · exact (and_iff_left rfl).symm
  | cons op rest ih =>
    obtain ⟨hop, hrest⟩ := forall_mem_cons.1 ha
    obtain ⟨hshows, hwhole⟩ := shows_step h op
    obtain ⟨hshows', hwhole'⟩ := ih hrest hshows
    rw [calls_run_cons, Scene.after_append]
    refine ⟨hshows', hwhole'.trans ?_⟩
    rw [hwhole, hasCanvas_step hop s]
    cases hcanvas : s.hasCanvas
    · have hempty := h.whole hcanvas
      obtain ⟨c, a⟩ := op
      cases c <;> simp [quitsAfterSetup, Op.setsUp, Command.quits, hempty]
    · cases hquits : op.1.quits <;> simp [hquits]

theorem state_quit (s : State) :
    (quit s).state.hasWindow = false ∧ (quit s).state.hasCanvas = s.hasCanvas := by
  cases hw : s.hasWindow <;> rw [quit, hw]
  · exact ⟨hw, rfl⟩
  · exact ⟨rfl, rfl⟩

end Drawing

/-! ## Executing code -/

namespace CommandLine

open ScriptWorkbench.Action Drawing

theorem perform_forM_draw (drawn : List Op) (w : World) :
    ∃ w', (drawn.forM fun op => do let _ ← draw op : Doing Crash Unit).perform w = (.ok (), w') ∧
      w'.drawing = (run w.drawing drawn).state := by
  induction drawn generalizing w with
  | nil => exact ⟨w, rfl, rfl⟩
  | cons op drawn ih =>
    obtain ⟨w', hperform, hdrawing⟩ := ih ((draw op : Doing Crash _).perform w).2
    exact ⟨w', hperform, hdrawing⟩

theorem drawing_closeDrawing (ending : Option Raised) (w : World) :
    ((closeDrawing ending).perform w).2.drawing = (quit w.drawing).state := by
  cases ending with
  | some r => rfl
  | none =>
    change ((if w.drawing.hasWindow then _ else _ : Doing Crash Unit).perform w).2.drawing = _
    cases w.drawing.hasWindow <;> rfl

/-- **What executing code leaves of the drawing:** the window that was there when the code ended is closed;
if it could be made, that is what the operations of the code left. -/
theorem drawing_executeDrawing (s : Surroundings) (opening : Answers) (drawn : List Op) (code : String)
    (w : World) : ∃ d, ((executeDrawing s opening drawn code).perform w).2.drawing = (quit d).state ∧
      ((start opening w.drawing).failure = none → d = (run w.drawing ((.start, opening) :: drawn)).state) := by
  obtain ⟨ending, w', hopened, hdrawing⟩ : ∃ ending w',
      (executeOpened s opening drawn code).perform w = (.ok ending, w') ∧
      ((start opening w.drawing).failure = none →
        w'.drawing = (run w.drawing ((.start, opening) :: drawn)).state) := by
    -- the world once the window is made, and once the execution is noted
    let w₁ := ((draw (.start, opening) : Doing Crash _).perform w).2
    let w₂ : World := { w₁ with executions := w₁.executions ++ [⟨"<opn>", code⟩] }
    obtain ⟨w₃, hperform, hdrawn⟩ := perform_forM_draw drawn w₂
    have hdraw : (draw (.start, opening) : Doing Crash _).perform w = (.ok (start opening w.drawing).failure, w₁) :=
      rfl
    have hdone : (do drawn.forM (fun op => do let _ ← draw op); return s.failure w₁.executions.length :
        Doing Crash _).perform w₂ = (.ok (s.failure w₁.executions.length), w₃) := perform_bind_ok hperform _
    rw [executeOpened, perform_bind_ok hdraw]
    cases (start opening w.drawing).failure with
    | none => exact ⟨_, w₃, hdone, fun _ => hdrawn⟩
    | some f =>
      cases f with
      | value e => exact ⟨_, w₃, hdone, fun _ => hdrawn⟩
      | refused call message => exact ⟨_, w₁, rfl, nofun⟩
  exact ⟨w'.drawing, by rw [executeDrawing, perform_bind_ok hopened, drawing_closeDrawing], hdrawing⟩

end CommandLine

/-! ## The life of the window and of the canvas -/

namespace Drawing

open CommandLine

/-- **The window and its counters, whatever operations are done and whatever the window system refuses.** The
window runs exactly while it is there, unless one could not be hidden; at no moment are there two windows, and
in the end as many were destroyed as were made, but for the one that is there. The counters are those of the
attempts: a refreshing that is counted was taken or failed, and a drawing drew an oval or failed. A drawing
with whole coordinates fails only if its oval is refused. Executing code that does the operations ends without
a window. -/
theorem window_life_cycle (ops : List Op) :
    let r := run .initial ops
    ((∀ f ∈ r.failures, ∀ m, f.2 ≠ .refused .hideWindow m) → r.state.running = r.state.hasWindow) ∧
      (∀ earlier, earlier <+: r.calls → ∃ there : Bool,
        earlier.countP Call.makesWindow = earlier.countP Call.destroysWindow + there.toNat) ∧
      r.calls.countP Call.makesWindow =
        r.calls.countP Call.destroysWindow + (if r.state.hasWindow then 1 else 0) ∧
      r.state.updateCount = r.calls.countP Call.refreshes + r.failures.countP (·.1.updates) ∧
      r.state.drawCount = r.calls.countP Call.drawsOval + r.failures.countP (·.1.draws) ∧
      ((∀ op ∈ ops, op.2 .refresh = none) → r.failures.countP (·.1.updates) = 0) ∧
      ((∀ op ∈ ops, op.1.onGrid = true ∧ ∀ call : Call, call.drawsOval = true → op.2 call = none) →
        r.failures.countP (·.1.draws) = 0) ∧
      ∀ (s : Surroundings) (opening : Answers) (code : String) (w : World),
        ((executeDrawing s opening ops code).perform w).2.drawing.hasWindow = false := by
  intro r
  obtain ⟨hdraw, hupdate⟩ := counters_run .initial ops
  have hfollow := follow_run .initial ops
  refine ⟨running_run .initial ops rfl, ?_, ?_, ?_, ?_, ?_, ?_, ?_⟩
  · intro earlier hearlier
    obtain ⟨there, hthere⟩ := exists_follow_of_prefix hfollow hearlier
    exact ⟨there.1, (holds_of_follow hthere).1⟩
  · refine (holds_of_follow hfollow).1.trans ?_
    change _ + r.state.hasWindow.toNat = _
    cases r.state.hasWindow <;> rfl
  · rwa [show State.initial.updateCount = 0 from rfl, Nat.zero_add] at hupdate
  · rwa [show State.initial.drawCount = 0 from rfl, Nat.zero_add] at hdraw
  · refine fun htaken => countP_failures_run (fun op hop hupdates s => ?_) .initial
    obtain ⟨c, a⟩ := op
    cases c with
    | update => exact failure_update (htaken _ hop) s
    | _ => cases hupdates
  · exact fun hgrid => countP_failures_run
      (fun op hop hdraws s => failure_step_of_onGrid (hgrid op hop).1 (hgrid op hop).2 hdraws s) .initial
  · intro s opening code w
    obtain ⟨d, hd, -⟩ := drawing_executeDrawing s opening ops code w
    rw [hd, (state_quit d).1]

/-- **A drawing can be counted that draws nothing:** one in a colour that cannot be looked up, and one behind
the closing of the window, where the window system does not know the canvas any more. -/
theorem counted_without_oval :
    let setup : Op := (.setup (.int 10) (.int 20) (.str "t"), fun _ => none)
    let r := run .initial [setup, (.point (.int 1) (.int 2) (.arr []), fun _ => none)]
    let r' := run .initial [setup, (.quit, fun _ => none), (.point (.int 1) (.int 2) (.str "Rojo"),
      fun call => if call.drawsOval then some "invalid command name" else none)]
    (r.state.drawCount = 1 ∧ r.calls.countP Call.drawsOval = 0) ∧
      r'.state.drawCount = 1 ∧ r'.calls.countP Call.drawsOval = 0 :=
  ⟨⟨rfl, rfl⟩, rfl, rfl⟩

/-- **The canvas is in the window that it was made in, as long as nothing is closed behind the first
set-up, and never again.** The scene is what the calls amount to. Drawing does nothing, and a set-up makes a
canvas, only while none was set up before: closing the window changes nothing about either. Executing code
leaves the canvas of the code behind, without a window. -/
theorem canvas_in_its_window_iff {ops : List Op} (hlenient : ∀ op ∈ ops, op.2.Lenient) :
    let r := run .initial ops
    let v := Scene.empty.after r.calls
    (v.window.isSome = r.state.hasWindow ∧ v.home.isSome = r.state.hasCanvas) ∧
      ((∀ k, v.home = some k → v.window = some k) ↔ quitsAfterSetup ops = false) ∧
      (∀ op : Op, op.1.draws = true →
        (step op.2 r.state op.1 = unchanged r.state ↔ ops.any Op.setsUp = false)) ∧
      (∀ op : Op, op.2.Lenient → op.setsUp = true →
        ((step op.2 r.state op.1).calls.any Call.makesCanvas = true ↔ ops.any Op.setsUp = false)) ∧
      ∀ (s : Surroundings) (opening : Answers) (code : String) (w : World), opening.Lenient →
        let d := ((executeDrawing s opening ops code).perform w).2.drawing
        d.hasWindow = false ∧ d.hasCanvas = (w.drawing.hasCanvas || ops.any Op.setsUp) := by
  intro r v
  obtain ⟨hshows, hwhole⟩ := shows_run hlenient shows_initial
  have hcanvas : r.state.hasCanvas = ops.any Op.setsUp := hasCanvas_run hlenient .initial
  refine ⟨⟨hshows.window, hshows.home⟩, hwhole, ?_, ?_, ?_⟩
  · rintro ⟨c, a⟩ hdraws
    rw [← hcanvas]
    cases c with
    | point x y color => exact disc_eq_unchanged_iff a r.state x y (.int 1) color
    | circle x y radius color => exact disc_eq_unchanged_iff a r.state x y radius color
    | start | quit | setup _ _ _ | update => cases hdraws
  · intro op hop hsets
    rw [makesCanvas_step hop r.state, hsets, Bool.and_true, Bool.not_eq_true', hcanvas]
  · intro s opening code w hopening
    obtain ⟨d, hd, hrun⟩ := drawing_executeDrawing s opening ops code w
    rw [hd]
    refine ⟨(state_quit d).1, (state_quit d).2.trans ?_⟩
    rw [hrun (start_of_lenient hopening _).1, hasCanvas_run (List.forall_mem_cons.2 ⟨hopening, hlenient⟩)]
    rfl

/-- A canvas that cannot be made, one that is made, and the window closed: the canvas is not in a window, and
a drawing would do something. -/
theorem canvas_in_its_window_late :
    let ops : List Op := [(.setup (.str "x") (.int 20) (.str "a"),
        fun call => if call.makesCanvas then some "bad screen distance" else none),
      (.setup (.int 10) (.int 20) (.str "a"), fun _ => none), (.quit, fun _ => none)]
    let r := run .initial ops
    (Scene.empty.after r.calls).home = some 0 ∧ (Scene.empty.after r.calls).window = none ∧
      ∀ a, step a r.state (.point (.int 1) (.int 2) (.str "Rojo")) ≠ unchanged r.state := by
  intro ops r
  have hlenient : ∀ op ∈ ops, op.2.Lenient := by
    simp only [ops, List.forall_mem_cons]
    exact ⟨⟨rfl, rfl, rfl, fun _ => rfl⟩, ⟨rfl, rfl, rfl, fun _ => rfl⟩, ⟨rfl, rfl, rfl, fun _ => rfl⟩, nofun⟩
  obtain ⟨-, -, hdraws, -⟩ := canvas_in_its_window_iff hlenient
  exact ⟨rfl, rfl, fun a h => absurd ((hdraws (_, a) rfl).1 h) (by decide)⟩

/-- **A canvas outlives its window:** a canvas is set up and the window closed. A drawing behind that is
counted, whatever the window system answers, and the next set-up makes a window and no canvas. -/
theorem canvas_without_window :
    let r := run .initial [(.setup (.int 10) (.int 20) (.str "a"), fun _ => none), (.quit, fun _ => none)]
    let next := step (fun _ => none) r.state (.setup (.int 10) (.int 20) (.str "b"))
    r.state.hasCanvas = true ∧ r.state.hasWindow = false ∧
      (∀ a, (step a r.state (.point (.int 1) (.int 2) (.str "Rojo"))).state.drawCount = 1) ∧
      next.calls.any Call.makesWindow = true ∧ next.calls.any Call.makesCanvas = false := by
  refine ⟨rfl, rfl, fun a => ?_, rfl, rfl⟩
  change (ask a _ _ _).state.drawCount = 1
  unfold ask
  split <;> rfl

end Drawing

end ScriptWorkbench
