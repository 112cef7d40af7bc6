import WorkBundle.Proofs.Barrier
import WorkBundle.Proofs.OneAtATime
import WorkBundle.Sample

/-!
# Lines that are not torn

A sink that keeps text writes an emission character by character and lets others run after each, so
two emissions that overlapped would tear each other's lines. They never overlap; hence what the sink
has written are the lines of the emissions it has begun with, in that order, without what is still
to come of the one in progress (`Machine.Typed`). When none is in progress, the records of the sink
are the emitted strings. Those of one worker are in the order of its script (`Machine.InOrder`).
-/

set_option autoImplicit false

namespace WorkBundle

variable {α : Type}

/-! ## Lines -/

def line (s : String) : List Char := s.toList ++ ['\n']

def Emission.text? (spell : α → String) : Emission (Output α) → Option String
  | .main (.given v) _ => some (spell v)
  | _ => none

/-- The strings among these emissions, each with its emitter. An emission to a side output, or of a
reading, leaves no string behind (`Emission.text?`). -/
def spoken (spell : α → String) (emitted : List (Emitter × Emission (Output α))) :
    List (Emitter × String) :=
  emitted.filterMap fun e => (e.2.text? spell).map (e.1, ·)

def textOf (said : List (Emitter × String)) : List Char := said.flatMap fun s => line s.2

theorem spoken_append (spell : α → String) (l l' : List (Emitter × Emission (Output α))) :
    spoken spell (l ++ l') = spoken spell l ++ spoken spell l' := List.filterMap_append

theorem textOf_append (l l' : List (Emitter × String)) : textOf (l ++ l') = textOf l ++ textOf l' :=
  List.flatMap_append

theorem chars_deliver (spell : α → String) (k : Emitter) (e : Emission (Output α)) :
    ((Intake.typing spell).deliver e).flatMap (·.chars) = textOf (spoken spell [(k, e)]) := by
  cases e with
  | side => rfl
  | main v t =>
    cases v with
    | reading => rfl
    | given v =>
      have hchars (l : List Char) :
          (l.flatMap fun c => [Delivery.write (α := α) c, .breathe]).flatMap (·.chars) = l := by
        induction l with
        | nil => rfl
        | cons c l ih => rw [List.flatMap_cons, List.flatMap_append, ih]; rfl
      have hline : textOf (spoken spell [(k, .main (.given v) t)]) = line (spell v) := by
        simp [textOf, spoken, Emission.text?]
      simp only [Intake.typing, List.flatMap_append, hchars, hline]
      rfl

def stringsOf (k : Emitter) (said : List (Emitter × String)) : List String :=
  (said.filter (·.1 = k)).map (·.2)

theorem stringsOf_append (k : Emitter) (l l' : List (Emitter × String)) :
    stringsOf k (l ++ l') = stringsOf k l ++ stringsOf k l' := by
  simp [stringsOf]

/-- No strings are torn or lost where each is written as a line of its own. A string that is empty,
or has a line break in it, would be read back as something else. -/
theorem records_textOf {said : List (Emitter × String)}
    (h : ∀ s ∈ said, s.2 ≠ "" ∧ '\n' ∉ s.2.toList) :
    Sample.records (textOf said) = said.map (·.2) := by
  induction said with
  | nil => rfl
  | cons s said ih =>
    obtain ⟨⟨hne, hline⟩, hrest⟩ := List.forall_mem_cons.mp h
    -- The first line ends where its string ends, since there is no end of a line in the string.
    have hsplit : (textOf (s :: said)).splitOn '\n' = s.2.toList :: (textOf said).splitOn '\n' := by
      have hfirst : textOf (s :: said) = s.2.toList ++ '\n' :: textOf said := by
        simp [textOf, line]
      rw [hfirst]
      exact List.splitOn_append_cons_self_of_not_mem hline _
    have hne' : s.2.toList ≠ [] := mt String.toList_eq_nil_iff.mp hne
    have ih' := ih hrest
    rw [Sample.records] at ih' ⊢
    rw [hsplit, List.filter_cons, if_pos (by simpa using hne'), List.map_cons, ih',
      String.ofList_toList, List.map_cons]

/-! ## What code is going to say -/

def Action.text? (spell : α → String) (t : Timestamp) : Action α → Option String
  | .emit call => (call.emission? (some t)).bind (·.text? spell)
  | _ => none

def textsOf (spell : α → String) (t : Timestamp) (script : Script α) : List String :=
  script.filterMap (Action.text? spell t)

def Emitting.texts (spell : α → String) : Emitting α → List String
  | .queued e => (e.text? spell).toList
  | .writing _ => []

/-- The strings with which the sink has not begun yet: that of an emission which waits for the lock,
and those of the rest of the script. -/
def Activity.textsAhead (spell : α → String) (t : Timestamp) (a : Activity α) : List String :=
  a.emitting.elim [] (·.texts spell) ++ textsOf spell t a.script

/-- What is left to say, if it is known: not of code that was cut short, by an error, a panic or a
drop, since its script no longer tells. -/
def Progress.textsAhead? (spell : α → String) (t : Timestamp) : Progress α → Option (List String)
  | .going a => some (a.textsAhead spell t)
  | .over .returned => some []
  | .over _ => none

def Worker.textsAhead? (spell : α → String) (w : Worker α) : Option (List String) :=
  match w.phase with
  | .queued => some (textsOf spell w.item.timestamp w.item.script)
  | .working a => some (a.textsAhead spell w.item.timestamp)
  | p => if p.fate? = some .returned then some [] else none

theorem Progress.textsAhead?_phase (spell : α → String) (item : WorkItem α) (n identity : Nat)
    (p : Progress α) : (Worker.mk item (p.phase n identity)).textsAhead? spell =
      p.textsAhead? spell item.timestamp := by
  cases p with
  | going => rfl
  | «over» outcome => cases outcome <;> rfl

theorem Worker.textsAhead?_of_fate (spell : α → String) {w : Worker α} {e : Ending}
    (h : w.phase.fate? = some e) :
    w.textsAhead? spell = if e = .returned then some [] else none := by
  obtain ⟨item, phase⟩ := w
  cases phase with
  | queued | working => cases h
  | _ =>
    cases h
    simp [textsAhead?, WorkerPhase.fate?]

namespace Machine

variable {m m' m₁ : Machine α} {move : Move α} {moves : List (Move α)} {spell : α → String}
  {current : Option (Call α)}

/-! ## What the sink has written -/

/-- The sink has written the lines (`textOf`) of these strings, but for what is left of the emission
in progress. While that is so, no other emission can write, so no line is ever torn. -/
structure Typed (m : Machine α) (said : List (Emitter × String)) : Prop where
  calm : (∀ k, ¬ m.Takes k) → m.written = textOf said
  busy : ∀ k steps, m.takingBy k = some steps → m.written ++ steps.flatMap (·.chars) = textOf said

def Smooth (m : Machine α) : Prop := ∀ k steps, m.takingBy k = some steps → .crash ∉ steps

theorem crash_not_mem_typing (spell : α → String) (e : Emission (Output α)) :
    .crash ∉ (Intake.typing spell).deliver e := by
  cases e with
  | side => simp [Intake.typing]
  | main v => cases v <;> simp [Intake.typing]

theorem Smooth.update {k : Emitter} {x : Option (List (Delivery α))} (h : m.Smooth)
    (taking : m'.takingBy = Function.update m.takingBy k x)
    (hx : ∀ steps, x = some steps → .crash ∉ steps) : m'.Smooth := by
  intro k' steps hk'
  rw [taking, Function.update_apply] at hk'
  split at hk'
  · exact hx steps hk'
  · exact h k' steps hk'

theorem Smooth.step (h : m.Smooth) (hintake : m.setup.intake = .typing spell)
    (hs : EmissionStep m m' move) : m'.Smooth := by
  cases hs with
  | still _ taking => exact fun k steps hk => h k steps (by rw [← taking]; exact hk)
  | @begins _ e _ _ taking =>
    refine h.update taking fun steps heq => ?_
    rw [← Option.some.inj heq, hintake]
    exact crash_not_mem_typing spell e
  | delivers _ was taking =>
    refine h.update taking fun steps heq => ?_
    rw [← Option.some.inj heq]
    exact fun hmem => h _ _ was (List.mem_cons_of_mem _ hmem)
  | ends _ _ taking | breaksOff _ _ taking => exact h.update taking fun _ heq => by cases heq

/-- No task, and no call of a hook, is dropped in the middle of an emission. Such a drop would leave
half a line behind, and that is the one way in which a text can be damaged. -/
def Unbroken (m₀ : Machine α) (moves : List (Move α)) : Prop :=
  ¬ m₀.Happens moves fun m move => ∃ k, m.Takes k ∧ m.Drops move k

theorem unbroken_concat {m₀ : Machine α} (hrun : m₀.run moves = some m) :
    m₀.Unbroken (moves ++ [move]) ↔
      m₀.Unbroken moves ∧ ∀ k, m.Takes k → ¬ m.Drops move k := by
  rw [Unbroken, happens_concat hrun, not_or, Unbroken]
  simp only [not_exists, not_and]

/-- Where nobody makes a `drop` or an `abandon`, and the backend runs every task, nothing is broken
off. -/
theorem unbroken_of_kept {setup : Setup α} {scope : Scope}
    (hruns : ∀ n, (setup.backend.receive n).verdict = .run)
    (hmoves : ∀ move ∈ moves, move ≠ .abandon ∧ ∀ n, move ≠ .drop n) :
    (Machine.new setup scope).Unbroken moves := by
  rintro ⟨before, move, after, m, rfl, hrun, k, -, hdrops⟩
  obtain ⟨habandon, hdrop⟩ := hmoves move (List.mem_append_right _ List.mem_cons_self)
  cases k with
  | hook => exact habandon hdrops
  | worker n =>
    rcases hdrops with heq | ⟨-, -, hverdict⟩
    · exact hdrop n heq
    · rw [verdict, setup_run hrun, hruns] at hverdict
      exact hverdict rfl

theorem Typed.step {current' : Option (Call α)} {said : List (Emitter × String)} (h : m.Typed said)
    (hintake : m.setup.intake = .typing spell) (hsmooth : m.Smooth) (hapart : m.Apart current)
    (hapart' : m'.Apart current') (hs : EmissionStep m m' move)
    (hkept : ∀ k, m.Takes k → ¬ m.Drops move k) :
    m'.Typed (said ++ spoken spell (m.makes move).toList) := by
  cases hs with
  | still makes taking written =>
    rw [makes, Option.toList_none, spoken, List.filterMap_nil, List.append_nil]
    refine ⟨fun hno => ?_, fun k steps hk => ?_⟩
    all_goals rw [written]
    · exact h.calm fun k => by rw [Takes, ← taking]; exact hno k
    · exact h.busy k steps (by rw [← taking]; exact hk)
  | @begins k e makes idle taking written =>
    -- The line begins where all earlier ones are complete.
    have hbefore := h.calm fun k' => hapart'.none_before idle taking
    have hself : m'.takingBy k = some (m.setup.intake.deliver e) := by
      rw [taking, Function.update_self]
    refine ⟨fun hno => absurd (takes_of_some hself) (hno k), fun k' steps hk' => ?_⟩
    obtain rfl : k' = k := hapart'.eq_of_takes (takes_of_some hk') (takes_of_some hself)
    obtain rfl := Option.some.inj (hself.symm.trans hk')
    rw [makes, Option.toList_some, written, hbefore, hintake, chars_deliver spell k', textOf_append]
  | @delivers k d steps makes was taking written =>
    rw [makes, Option.toList_none, spoken, List.filterMap_nil, List.append_nil]
    have hself : m'.takingBy k = some steps := by rw [taking, Function.update_self]
    refine ⟨fun hno => absurd (takes_of_some hself) (hno k), fun k' steps' hk' => ?_⟩
    obtain rfl : k' = k := hapart'.eq_of_takes (takes_of_some hk') (takes_of_some hself)
    obtain rfl := Option.some.inj (hself.symm.trans hk')
    rw [written, ← h.busy _ _ was, List.flatMap_cons, List.append_assoc]
  | ends makes was taking written =>
    rw [makes, Option.toList_none, spoken, List.filterMap_nil, List.append_nil]
    refine ⟨fun _ => ?_, fun k' steps hk' => ?_⟩
    · rw [written, ← h.busy _ _ was, List.flatMap_nil, List.append_nil]
    · exact absurd (takes_of_some hk') (hapart.none_after (takes_of_some was) taking)
  | breaksOff _ was _ _ _ cause =>
    rcases cause with hcrash | hdrops
    · exact absurd hcrash (hsmooth _ _ was)
    · exact absurd hdrops (hkept _ (takes_of_some was))

def said (m : Machine α) (spell : α → String) (moves : List (Move α)) : List (Emitter × String) :=
  spoken spell (m.emitted moves)

theorem said_concat {m₀ : Machine α} (spell : α → String) (hrun : m₀.run moves = some m)
    (hstep : m.step move = some m') :
    m₀.said spell (moves ++ [move]) =
      m₀.said spell moves ++ spoken spell (m.makes move).toList := by
  rw [said, emitted_concat hrun hstep, spoken_append]
  rfl

theorem typed {setup : Setup α} {scope : Scope} (hintake : setup.intake = .typing spell)
    (hrun : (Machine.new setup scope).run moves = some m)
    (hunbroken : (Machine.new setup scope).Unbroken moves) :
    m.Typed ((Machine.new setup scope).said spell moves) := by
  refine (run_induction (Q := fun moves m => (Machine.new setup scope).Unbroken moves →
    m.Smooth ∧ m.Typed ((Machine.new setup scope).said spell moves)) ?_ ?_ hrun hunbroken).2
  · intro _
    refine ⟨fun k steps hk => ?_, fun _ => rfl, fun k steps hk => ?_⟩
    all_goals cases k <;> cases hk
  · intro moves m m' move hrun ih hstep hunbroken
    obtain ⟨hbefore, hkept⟩ := (unbroken_concat hrun).mp hunbroken
    obtain ⟨hsmooth, htyped⟩ := ih hbefore
    have hs := emissionStep (transition_of_step hstep)
    have hintake' : m.setup.intake = .typing spell := by rw [setup_run hrun, hintake]
    have hapart' := apart (run_trans hrun ((run_singleton m move).trans hstep))
    rw [said_concat spell hrun hstep]
    exact ⟨hsmooth.step hintake' hs,
      htyped.step hintake' hsmooth (apart hrun) hapart' hs hkept⟩

/-! ## What one step says -/

theorem textsOf_cons (spell : α → String) (t : Timestamp) (action : Action α) (rest : Script α) :
    textsOf spell t (action :: rest) = (action.text? spell t).toList ++ textsOf spell t rest := by
  cases htext : action.text? spell t <;> simp [textsOf, htext]

theorem text?_of_does {action : Action α} {item : WorkItem α} {scope : Scope}
    {e : Option (Emission (Output α))} (h : action.does (some item.toElement) scope = .ok e) :
    action.text? spell item.timestamp = e.bind (·.text? spell) := by
  cases action with
  | emit call =>
    have hcall : call.emission? (some item.timestamp) = e := by
      simp only [Action.does, Option.map_some] at h
      split at h
      · cases h
        assumption
      · cases h
    rw [Action.text?, hcall]
  | report question named =>
    -- A reading leaves no string, whatever it says.
    simp only [Action.does] at h
    split at h
    · cases h
    · split at h <;> cases h
      rfl
  | fail | panic => cases h
  | _ =>
    cases h
    rfl

theorem does_ne_returned (element : Option (Element α)) (scope : Scope) (action : Action α) :
    action.does element scope ≠ .error .returned := by
  intro h
  cases action with
  | emit | permit =>
    simp only [Action.does] at h
    split at h <;> cases h
  | report =>
    simp only [Action.does] at h
    split at h
    · cases h
    · split at h <;> cases h
  | _ => cases h

theorem performed_texts {a : Activity α} {n : Nat} {item : WorkItem α} {action : Action α}
    {p : Progress α} {ahead : List String} (ha : a.emitting = none)
    (h : Machine.Performed m (.worker n item) a action m₁ p)
    (hp : p.textsAhead? spell item.timestamp = some ahead) :
    textsOf spell item.timestamp (action :: a.script) = ahead := by
  rw [textsOf_cons]
  cases h with
  | requests does request =>
    cases request
    rw [text?_of_does does, ← Option.some.inj hp]
    rfl
  | goesOn does =>
    rw [text?_of_does does, ← Option.some.inj hp, Activity.textsAhead, ha]
    rfl
  | @ends outcome does =>
    cases outcome with
    | returned => exact absurd does (does_ne_returned _ _ _)
    | failed | panicked => cases hp
  | denied => cases hp

/-- What the code of a worker still has to say before a step is what the step says, and what it has
to say afterwards. -/
theorem act_texts {a : Activity α} {n : Nat} {item : WorkItem α} {p : Progress α}
    {ahead : List String} (h : m.act (.worker n item) a = (m₁, p))
    (hp : p.textsAhead? spell item.timestamp = some ahead) :
    a.textsAhead spell item.timestamp =
      ((a.next? (.worker n item) m.scope).bind (·.text? spell)).toList ++ ahead := by
  cases acted h with
  | granted queued =>
    rw [← Option.some.inj hp]
    simp [Activity.textsAhead, Activity.next?, queued, Emitting.texts]
  | @writes _ _ _ steps writing write =>
    have hnext : a.next? (.worker n item) m.scope = none := by simp only [Activity.next?, writing]
    rw [hnext, Activity.textsAhead, writing]
    cases steps with
    | nil =>
      cases write
      rw [← Option.some.inj hp]
      rfl
    | cons d steps =>
      cases d with
      | crash =>
        cases write
        cases hp
      | _ =>
        cases write
        rw [← Option.some.inj hp]
        rfl
  | permitted idle =>
    rw [Activity.next?_worker idle, ← Option.some.inj hp]
    rfl
  | denied => cases hp
  | returns idle script =>
    rw [Activity.next?_worker idle, Activity.textsAhead, idle, script, ← Option.some.inj hp]
    rfl
  | performs idle script performed =>
    rw [Activity.next?_worker idle, Activity.textsAhead, idle, script]
    exact performed_texts (by exact idle) performed hp

def utters (m : Machine α) (spell : α → String) (move : Move α) (n : Nat) : List String :=
  stringsOf (.worker n) (spoken spell (m.makes move).toList)

theorem utters_of_silent {n : Nat} (h : ∀ e, m.makes move ≠ some (.worker n, e)) :
    m.utters spell move n = [] := by
  rw [utters]
  cases hmakes : m.makes move with
  | none => rfl
  | some made =>
    obtain ⟨k, e⟩ := made
    have hne : k ≠ .worker n := by
      rintro rfl
      exact h e hmakes
    cases htext : e.text? spell <;> simp [spoken, stringsOf, htext, hne]

theorem utters_of_makes {n : Nat} {made : Option (Emission (Output α))}
    (h : m.makes move = made.map (.worker n, ·)) :
    m.utters spell move n = (made.bind (·.text? spell)).toList := by
  rw [utters, h]
  cases made with
  | none => rfl
  | some e => cases htext : e.text? spell <;> simp [spoken, stringsOf, htext]

/-- What one step lets workers say: nothing, with or without another worker, or one worker says the
first part of what is ahead of it. -/
inductive SpeechStep (m m' : Machine α) (spell : α → String) (move : Move α) : Prop
  | same (workers : m'.workers = m.workers) (silent : ∀ n, m.utters spell move n = [])
  | more {item : WorkItem α} (workers : m'.workers = m.workers ++ [⟨item, .queued⟩])
      (silent : ∀ n, m.utters spell move n = [])
  | change {n : Nat} {w : Worker α} {q : WorkerPhase α} (worker : m.workers[n]? = some w)
      (workers : m'.workers = (m.setPhase n q).workers)
      (others : ∀ k, k ≠ n → m.utters spell move k = [])
      (stops : ({ w with phase := q } : Worker α).textsAhead? spell = none →
        m.utters spell move n = [])
      (goesOn : ∀ ahead, ({ w with phase := q } : Worker α).textsAhead? spell = some ahead →
        w.textsAhead? spell = some (m.utters spell move n ++ ahead))

theorem SpeechStep.of_silent {n : Nat} {w : Worker α} {q : WorkerPhase α}
    (worker : m.workers[n]? = some w) (workers : m'.workers = (m.setPhase n q).workers)
    (silent : ∀ k, m.utters spell move k = [])
    (kept : ∀ ahead, ({ w with phase := q } : Worker α).textsAhead? spell = some ahead →
      w.textsAhead? spell = some ahead) : SpeechStep m m' spell move := by
  refine .change worker workers (fun k _ => silent k) (fun _ => silent n) fun ahead hq => ?_
  rw [silent n]
  exact kept ahead hq

theorem SpeechStep.of_fate {n : Nat} {w : Worker α} {q : WorkerPhase α} {e : Ending}
    (worker : m.workers[n]? = some w) (workers : m'.workers = (m.setPhase n q).workers)
    (silent : ∀ k, m.utters spell move k = []) (hold : w.phase.fate? = some e)
    (hnew : q.fate? = some e) : SpeechStep m m' spell move :=
  .of_silent worker workers silent fun ahead hq => by
    have hnew' := Worker.textsAhead?_of_fate (w := ⟨w.item, q⟩) spell hnew
    rw [Worker.textsAhead?_of_fate spell hold, ← hnew']
    exact hq

theorem SpeechStep.of_act {n : Nat} {w : Worker α} {a : Activity α} {p : Progress α}
    (identity : Nat) (worker : m.workers[n]? = some w) (phase : w.phase = .working a)
    (hact : m.act (.worker n w.item) a = (m₁, p))
    (workers : m'.workers = (m.setPhase n (p.phase n identity)).workers) :
    SpeechStep m m' spell (.worker n) := by
  have hmakes := makes_of_worker worker phase
  have hutters : m.utters spell (.worker n) n =
      ((a.next? (.worker n w.item) m.scope).bind (·.text? spell)).toList := utters_of_makes hmakes
  refine .change worker workers (fun k hk => ?_) (fun hstop => ?_) fun ahead hq => ?_
  · refine utters_of_silent fun e hother => ?_
    rw [hmakes] at hother
    obtain ⟨_, -, heq⟩ := Option.map_eq_some_iff.mp hother
    cases heq
    exact hk rfl
  · rw [Progress.textsAhead?_phase] at hstop
    have hnext : a.next? (.worker n w.item) m.scope = none := by
      cases actTaking hact with
      | still next => exact next
      | begins _ _ taking =>
        -- Code that begins with an emission goes on.
        cases p with
        | going a' => cases hstop
        | «over» outcome => cases taking
      | delivers was | ends was | breaksOff was => exact Activity.next?_of_taking was
    rw [hutters, hnext]
    rfl
  · rw [Progress.textsAhead?_phase] at hq
    rw [hutters, ← act_texts hact hq, Worker.textsAhead?, phase]

theorem speechStep_of_worker {n : Nat} {w : Worker α} (worker : m.workers[n]? = some w)
    (h : WorkerStep m n w m') : SpeechStep m m' spell (.worker n) := by
  have hsilent (hidle : ∀ a, w.phase ≠ .working a) (k : Nat) :
      m.utters spell (.worker n) k = [] := by
    refine utters_of_silent fun e hmakes => ?_
    rw [makes_of_idle_worker worker hidle] at hmakes
    cases hmakes
  have haside {q : WorkerPhase α} {e : Ending} (q' : WorkerPhase α) (phase : w.phase = q)
      (workers : m'.workers = (m.setPhase n q').workers) (hold : q.fate? = some e)
      (hnew : q'.fate? = some e) : SpeechStep m m' spell (.worker n) := by
    refine .of_fate worker workers (hsilent fun a hworking => ?_) (phase ▸ hold) hnew
    rw [phase] at hworking
    rw [hworking] at hold
    cases hold
  cases h with
  | begin phase =>
    refine .of_silent worker rfl (hsilent fun a hworking => ?_) fun ahead hq => ?_
    · rw [phase] at hworking
      cases hworking
    · rw [Worker.textsAhead?, phase]
      exact hq
  | @goOn a a' m₁ phase _ hact =>
    refine .of_act (p := .going a') 0 worker phase hact ?_
    rw [setPhase_workers, act_workers hact]
    rfl
  | @finish a outcome m₁ phase _ hact =>
    exact .of_act (p := .over outcome) m₁.minted worker phase hact (finish_workers hact n)
  | @offer f e phase =>
    rcases m.offer_cases n f e with ⟨-, heq⟩ | ⟨_, -, heq⟩
    all_goals rw [heq] at haside ⊢
    · exact haside (.leaving e) phase rfl rfl rfl
    · exact haside (.counting f e) phase rfl rfl rfl
  | @count f e phase => exact haside (.leaving e) phase rfl rfl rfl
  | @leave e phase => exact haside (.closing e) phase rfl rfl rfl
  | @close e phase =>
    obtain ⟨tally, log, heq⟩ := m.close_eq n e
    exact haside (.ended e) phase (by rw [heq]) rfl rfl

theorem speechStep_of_producer (h : ProducerStep m m') : SpeechStep m m' spell .producer := by
  have hsilent (n : Nat) : m.utters spell .producer n = [] := by
    refine utters_of_silent fun e hmakes => ?_
    simp only [makes] at hmakes
    split at hmakes
    · obtain ⟨_, -, heq⟩ := Option.map_eq_some_iff.mp hmakes
      cases heq
    · cases hmakes
  cases h with
  | startOn _ hact | finishOn _ hact =>
    have hworkers := act_workers hact
    exact .same hworkers hsilent
  | @startEnd _ outcome m₁ _ hact =>
    exact .same ((m₁.startEnded_leaves outcome).2.1.trans (act_workers hact)) hsilent
  | @finishEnd _ outcome m₁ _ hact =>
    exact .same ((m₁.finishEnded_leaves outcome).2.1.trans (act_workers hact)) hsilent
  | ask =>
    refine .same ?_ hsilent
    unfold askTicket askGate
    split <;> rfl
  | check =>
    refine .same ?_ hsilent
    unfold check
    split <;> rfl
  | @hand item =>
    have hmore : (m.hand item).workers = m.workers ++ [⟨item, .queued⟩] → SpeechStep m (m.hand item)
        spell .producer := fun workers => .more workers hsilent
    refine hmore ?_
    rcases m.hand_cases item with ⟨-, heq⟩ | ⟨-, heq⟩ | ⟨-, -, heq⟩
    all_goals
      rw [heq]
      rfl
  | keep | refusalCaptured | refusalLate | refusalCounted => exact .same rfl hsilent
  | @dropPolled n w a _ worker =>
    obtain ⟨_, _, _, heq⟩ := lose_eq { m with producer := .dropping n } n a
    exact .of_silent worker (by rw [heq]; rfl) hsilent fun _ hq => by cases hq
  | dropQueued _ worker => exact .of_silent worker rfl hsilent fun _ hq => by cases hq
  | @answer n w e _ worker closing =>
    have hold : w.phase.fate? = some e := by rw [closing]; rfl
    rcases (m.setPhase n (.ended e)).verdictOf_cases n with ⟨-, heq⟩ | ⟨-, heq⟩
    all_goals
      rw [heq]
      exact .of_fate worker rfl hsilent hold rfl
  | drain =>
    refine .same ?_ hsilent
    unfold askEverything askGate
    split <;> rfl
  | conclude =>
    refine .same ?_ hsilent
    unfold conclude
    split <;> rfl

theorem speechStep (h : Transition m move m') : SpeechStep m m' spell move := by
  have hsilent {move : Move α} (hmakes : m.makes move = none) (n : Nat) :
      m.utters spell move n = [] :=
    utters_of_silent fun e heq => by
      rw [hmakes] at heq
      cases heq
  have hforsaken (a : Activity α) : (m.forsakeHook a).workers = m.workers := by
    obtain ⟨tally, heq⟩ := m.forsakeHook_eq a
    rw [heq]
  cases h with
  | violation | start | submit | finish | abandonWait | cancel => exact .same rfl (hsilent rfl)
  | abandonStart | abandonFinish => exact .same (hforsaken _) (hsilent rfl)
  | producer step => exact speechStep_of_producer step
  | worker worker step => exact speechStep_of_worker worker step
  | @drop n w _ worker _ step =>
    cases step with
    | queued => exact .of_silent worker rfl (hsilent rfl) fun _ hq => by cases hq
    | @working a =>
      obtain ⟨_, _, _, heq⟩ := m.lose_eq n a
      exact .of_silent worker (by rw [heq]; rfl) (hsilent rfl) fun _ hq => by cases hq
  | @world move hworld =>
    have hmakes : m.makes move = none := by
      cases move <;> first | rfl | cases hworld
    exact .same rfl (hsilent hmakes)

/-! ## The order of a script -/

/-- What each worker has said so far is the beginning of what its script says; what is missing is
still to come, unless the worker was cut short (`Worker.textsAhead?`). -/
structure InOrder (m : Machine α) (spell : α → String) (said : List (Emitter × String)) : Prop where
  nobody : ∀ n, m.workers.length ≤ n → stringsOf (.worker n) said = []
  script : ∀ n w, m.workers[n]? = some w → ∃ rest,
    stringsOf (.worker n) said ++ rest = textsOf spell w.item.timestamp w.item.script ∧
      ∀ ahead, w.textsAhead? spell = some ahead → rest = ahead

theorem InOrder.step {said : List (Emitter × String)} (h : m.InOrder spell said)
    (hs : SpeechStep m m' spell move) :
    m'.InOrder spell (said ++ spoken spell (m.makes move).toList) := by
  have hsaid (n : Nat) : stringsOf (.worker n) (said ++ spoken spell (m.makes move).toList) =
      stringsOf (.worker n) said ++ m.utters spell move n := stringsOf_append _ _ _
  have hsilent {n : Nat} (hn : m.utters spell move n = []) :
      stringsOf (.worker n) (said ++ spoken spell (m.makes move).toList) =
        stringsOf (.worker n) said := by
    rw [hsaid, hn, List.append_nil]
  cases hs with
  | same workers silent =>
    refine ⟨fun n hn => ?_, fun n w hw => ?_⟩
    all_goals rw [hsilent (silent n)]
    · exact h.nobody n (workers ▸ hn)
    · exact h.script n w (workers ▸ hw)
  | more workers silent =>
    refine ⟨fun n hn => ?_, fun n w hw => ?_⟩
    all_goals rw [hsilent (silent n)]
    · rw [workers, List.length_append] at hn
      exact h.nobody n (Nat.le_of_add_right_le hn)
    · rw [workers] at hw
      rcases getElem?_concat_cases hw with ⟨hn, rfl⟩ | hw
      -- A new worker has its whole script ahead of it.
      · refine ⟨_, ?_, fun ahead hahead => Option.some.inj hahead⟩
        rw [h.nobody n (Nat.le_of_eq hn.symm)]
        rfl
      · exact h.script n w hw
  | @change n w q worker workers others stops goesOn =>
    refine ⟨fun k hk => ?_, fun k v hv => ?_⟩
    · rw [workers, length_setPhase] at hk
      have hlt := (List.getElem?_eq_some_iff.mp worker).1
      rw [hsilent (others k (by omega))]
      exact h.nobody k hk
    · rw [workers] at hv
      rcases worker_of_setPhase worker hv with ⟨rfl, rfl⟩ | ⟨hk, hv⟩
      · obtain ⟨rest, hrest, hahead⟩ := h.script k w worker
        cases hnew : ({ w with phase := q } : Worker α).textsAhead? spell with
        -- Cut short: what is missing stays so.
        | none => exact ⟨rest, by rw [hsilent (stops hnew)]; exact hrest, fun _ heq => by cases heq⟩
        | some ahead =>
          refine ⟨ahead, ?_, fun _ heq => Option.some.inj heq⟩
          rw [hahead _ (goesOn ahead hnew)] at hrest
          rw [hsaid, List.append_assoc]
          exact hrest
      · rw [hsilent (others k hk)]
        exact h.script k v hv

theorem inOrder {setup : Setup α} {scope : Scope} (spell : α → String)
    (hrun : (Machine.new setup scope).run moves = some m) :
    m.InOrder spell ((Machine.new setup scope).said spell moves) := by
  refine run_induction (Q := fun moves m =>
    m.InOrder spell ((Machine.new setup scope).said spell moves)) ?_ ?_ hrun
  · exact ⟨fun _ _ => rfl, fun n w hw => by cases hw⟩
  · intro moves m m' move hrun h hstep
    rw [said_concat spell hrun hstep]
    exact h.step (speechStep (transition_of_step hstep))

theorem InOrder.complete {said : List (Emitter × String)} (h : m.InOrder spell said) {n : Nat}
    {w : Worker α} (hw : m.workers[n]? = some w) (hfate : w.phase.fate? = some .returned) :
    stringsOf (.worker n) said = textsOf spell w.item.timestamp w.item.script := by
  obtain ⟨rest, hrest, hahead⟩ := h.script n w hw
  have hnone : rest = [] := hahead [] (by rw [Worker.textsAhead?_of_fate spell hfate, if_pos rfl])
  rw [← hrest, hnone, List.append_nil]

theorem Quiet.not_takes (h : m.Quiet) (k : Emitter) : ¬ m.Takes k := by
  intro htakes
  cases k with
  | hook hook =>
    obtain ⟨a, hp⟩ := exists_hook_of_takes htakes
    rw [h.idle] at hp
    cases hp
  | worker n =>
    obtain ⟨w, a, hw, hphase, -⟩ := exists_worker_of_takes htakes
    exact inFlight_ne_zero hw (by rw [hphase]; rfl) h.empty

/-- Emissions never overlap. The sink is in the middle of at most one of them, whoever makes it, and
after a drained finish in the middle of none. Hence a sink that keeps text holds the lines of the
emissions it has begun with, without what is still to come of the one in progress, unless somebody
was dropped in the middle of one; when none is in progress, its records are the emitted strings. The
strings of a worker are in the order of its script, and all of them when its code has returned.

This is about the hooks and workers that an `Activity` can be: each makes its emissions one after
the other, by its type, while any number of workers run at once. Of a worker that had two emissions
under way the lock would still let only one through; a hook takes no lock (`lock_of_hook`), so for
hooks this is a restriction. -/
theorem emissions_never_overlap {setup : Setup α} {scope : Scope} {moves : List (Move α)}
    {m : Machine α} (hrun : (Machine.new setup scope).run moves = some m) :
    (∀ k k', m.Takes k → m.Takes k' → k = k') ∧
    m.tally.emissions.active ≤ 1 ∧ m.tally.emissions.maxActive ≤ 1 ∧
    (∀ reply, (Call.finish, reply) ∈ (Machine.new setup scope).exchanges moves →
      reply.isDrained = true → ∀ k, ¬ m.Takes k) ∧
    ∀ spell,
      (setup.intake = .typing spell → (Machine.new setup scope).Unbroken moves →
        (∀ k steps, m.takingBy k = some steps → m.written ++ steps.flatMap (·.chars) =
          textOf ((Machine.new setup scope).said spell moves)) ∧
        ((∀ k, ¬ m.Takes k) →
          (∀ s ∈ (Machine.new setup scope).said spell moves, s.2 ≠ "" ∧ '\n' ∉ s.2.toList) →
            Sample.records m.written = ((Machine.new setup scope).said spell moves).map (·.2))) ∧
      ∀ n w, m.workers[n]? = some w →
        stringsOf (.worker n) ((Machine.new setup scope).said spell moves) <+:
          textsOf spell w.item.timestamp w.item.script ∧
        (w.phase.fate? = some .returned →
          stringsOf (.worker n) ((Machine.new setup scope).said spell moves) =
            textsOf spell w.item.timestamp w.item.script) := by
  have hw := watched hrun
  refine ⟨fun k k' => (apart hrun).eq_of_takes, ?_, hw.le_one, ?_, fun spell => ⟨?_, ?_⟩⟩
  · by_cases hbusy : ∃ k, m.Takes k
    · obtain ⟨k, hk⟩ := hbusy
      exact Nat.le_of_eq (hw.busy k hk)
    · rw [hw.calm fun k hk => hbusy ⟨k, hk⟩]
      exact Nat.zero_le 1
  · intro reply hmem hdrained
    exact ((drains hrun).ended reply hmem hdrained).quiet.not_takes
  · intro hintake hunbroken
    have htyped := typed hintake hrun hunbroken
    refine ⟨htyped.busy, fun hcalm hwords => ?_⟩
    rw [htyped.calm hcalm]
    exact records_textOf hwords
  · intro n w hworker
    have horder := inOrder spell hrun
    refine ⟨?_, horder.complete hworker⟩
    obtain ⟨rest, hrest, -⟩ := horder.script n w hworker
    exact ⟨rest, hrest⟩

/-- Up to three workers at a time, and both hooks, write words into a sink that keeps text
(`Intake.typing`). -/
def choirSetup : Setup String where
  processor :=
    { name := "choir"
      startHook := [.emit (.outputAt (.given "ah") .least)]
      finishHook := [.emit (.outputAt (.given "oh") .least)] }
  parallelism := { count := 3 }
  intake := .typing id

def choirItem (words : List String) : WorkItem String where
  value := "choir"
  script := words.map fun word => .emit (.output (.given word))

/-- Two workers ask for the output lock before the first of them has written a word. -/
def choirMoves : List (Move String) :=
  List.flatten
    [[.call .start], List.replicate 8 .producer,
      [.call (.submit (choirItem ["one", "two"])), .producer, .producer, .producer],
      [.call (.submit (choirItem ["three"])), .producer, .producer, .producer],
      [.worker 0, .worker 1, .worker 0, .worker 0, .worker 1], List.replicate 8 (.worker 0),
      List.replicate 14 (.worker 1), List.replicate 12 (.worker 0), List.replicate 2 (.worker 1),
      [.call .finish], List.replicate 10 .producer]

theorem emissions_never_overlap_choir :
    ∃ m, (Machine.new choirSetup).run choirMoves = some m ∧ m.tally.emissions.maxActive ≤ 1 ∧
      Sample.records m.written = ["ah", "one", "three", "two", "oh"] ∧
      ∀ w, m.workers[0]? = some w → w.phase.fate? = some .returned →
        stringsOf (.worker 0) ((Machine.new choirSetup).said id choirMoves) =
          textsOf id w.item.timestamp w.item.script := by
  have hsome : ((Machine.new choirSetup).run choirMoves).isSome = true := by decide +kernel
  have hfinish : ((Machine.new choirSetup).exchanges choirMoves).any
      (fun x => x.1.isFinish && x.2.isDrained) = true := by decide +kernel
  have hwords : ∀ s ∈ (Machine.new choirSetup).said id choirMoves,
      s.2 ≠ "" ∧ '\n' ∉ s.2.toList := by decide +kernel
  have hsaid : ((Machine.new choirSetup).said id choirMoves).map (·.2) =
      ["ah", "one", "three", "two", "oh"] := by decide +kernel
  obtain ⟨m, hrun⟩ := Option.isSome_iff_exists.mp hsome
  obtain ⟨⟨c, reply⟩, hmem, htest⟩ := List.any_eq_true.mp hfinish
  obtain ⟨hc, hdrained⟩ := Bool.and_eq_true_iff.mp htest
  cases c with
  | finish =>
    obtain ⟨-, -, hone, hover, htext⟩ := emissions_never_overlap hrun
    obtain ⟨hrecords, horder⟩ := htext id
    have hcalm := hover reply hmem hdrained
    have hunbroken : (Machine.new choirSetup).Unbroken choirMoves :=
      unbroken_of_kept (fun _ => rfl) (by simp [choirMoves])
    refine ⟨m, hrun, hone, ?_, fun w hw => (horder 0 w hw).2⟩
    rw [← hsaid]
    exact (hrecords rfl hunbroken).2 hcalm hwords
  | start | submit => cases hc

end Machine

end WorkBundle
