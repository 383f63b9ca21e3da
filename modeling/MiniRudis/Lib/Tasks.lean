import Mathlib.Data.List.Induction
import Mathlib.Logic.Function.Basic

/-!
# Tasks that take turns

Tasks on one thread share a state.  A turn takes a task from one point at which it waits
to the next, and no other task runs in between.  If each turn of a task does what its
entries do one after another, then every run of all the tasks is a serial one.
-/

namespace MiniRudis.Lib

variable {σ τ ι ε β κ : Type}

/-- What a run executes, in order: an entry of a task, or a job of the background. -/
inductive Entry (ε β : Type)
  | own (i : Nat) (e : ε)
  | job (b : β)

inductive Move (ι β : Type)
  | spawn
  | turn (i : Nat) (input : ι)
  | job (b : β)

structure Pool (σ τ ε β : Type) where
  shared : σ
  tasks : List τ
  /-- What has been executed; no turn reads it. -/
  log : List (Entry ε β)

def Pool.start (s : σ) : Pool σ τ ε β := ⟨s, [], []⟩

/-- The code of the tasks.  A turn that the task cannot take is `none`; one that it takes
also tells which entries it has executed. -/
structure Tasks (σ τ ι ε β : Type) where
  fresh : τ
  turn : ι → σ → τ → Option (List ε × σ × τ)
  job : β → σ → σ

namespace Tasks

variable (code : Tasks σ τ ι ε β)

def step (p : Pool σ τ ε β) : Move ι β → Option (Pool σ τ ε β)
  | .spawn => some { p with tasks := p.tasks ++ [code.fresh] }
  | .turn i input => do
      let task ← p.tasks[i]?
      let (entries, shared, task) ← code.turn input p.shared task
      return ⟨shared, p.tasks.set i task, p.log ++ entries.map (.own i)⟩
  | .job b => some { p with shared := code.job b p.shared, log := p.log ++ [.job b] }

def run (p : Pool σ τ ε β) (moves : List (Move ι β)) : Option (Pool σ τ ε β) :=
  moves.foldlM code.step p

variable {code}

theorem step_turn {p p' : Pool σ τ ε β} {i : Nat} {input : ι}
    (h : code.step p (.turn i input) = some p') :
    ∃ task entries task', p.tasks[i]? = some task ∧
      code.turn input p.shared task = some (entries, p'.shared, task') ∧
      p'.tasks = p.tasks.set i task' ∧ p'.log = p.log ++ entries.map (.own i) := by
  simp only [step, Option.bind_eq_bind, Option.bind_eq_some_iff] at h
  obtain ⟨task, htask, ⟨entries, shared, task'⟩, hturn, hp⟩ := h
  obtain rfl := Option.some.inj hp
  exact ⟨task, entries, task', htask, hturn, rfl, rfl⟩

theorem step_of_turn {p : Pool σ τ ε β} {i : Nat} {input : ι} {task task' : τ} {entries : List ε}
    {s' : σ} (htask : p.tasks[i]? = some task)
    (hturn : code.turn input p.shared task = some (entries, s', task')) :
    code.step p (.turn i input) =
      some ⟨s', p.tasks.set i task', p.log ++ entries.map (.own i)⟩ := by
  simp only [step, htask, Option.bind_eq_bind, Option.bind_some, hturn]
  rfl

theorem run_cons {p p' : Pool σ τ ε β} {move : Move ι β} (h : code.step p move = some p')
    (moves : List (Move ι β)) : code.run p (move :: moves) = code.run p' moves := by
  rw [run, List.foldlM_cons, h]
  rfl

theorem run_keeps {I : Pool σ τ ε β → Prop}
    (hstep : ∀ p move p', I p → code.step p move = some p' → I p')
    {p p' : Pool σ τ ε β} {moves : List (Move ι β)} (hp : I p)
    (h : code.run p moves = some p') : I p' := by
  unfold run at h
  induction moves generalizing p with
  | nil => exact Option.some.inj h ▸ hp
  | cons move moves ih =>
      rw [List.foldlM_cons, Option.bind_eq_bind, Option.bind_eq_some_iff] at h
      obtain ⟨q, hq, hrest⟩ := h
      exact ih (hstep p move q hp hq) hrest

theorem run_each {P : τ → Prop} (hfresh : P code.fresh)
    (hturn : ∀ input s task entries s' task', P task →
      code.turn input s task = some (entries, s', task') → P task')
    {s : σ} {moves : List (Move ι β)} {p : Pool σ τ ε β}
    (h : code.run (.start s) moves = some p) : ∀ task ∈ p.tasks, P task := by
  refine run_keeps (I := fun p => ∀ task ∈ p.tasks, P task) ?_ ?_ h
  · intro p move p' hp hstep task htask
    cases move with
    | spawn =>
        obtain rfl := Option.some.inj hstep
        obtain htask | htask := List.mem_append.mp htask
        · exact hp task htask
        · exact List.mem_singleton.mp htask ▸ hfresh
    | job b =>
        obtain rfl := Option.some.inj hstep
        exact hp task htask
    | turn i input =>
        obtain ⟨old, entries, new, hold, htaken, htasks, -⟩ := step_turn hstep
        rw [htasks] at htask
        obtain htask | rfl := List.mem_or_eq_of_mem_set htask
        · exact hp task htask
        · exact hturn input _ old _ _ _ (hp old (List.mem_of_getElem? hold)) htaken
  · exact fun task htask => absurd htask (by simp [Pool.start])

theorem run_append (p : Pool σ τ ε β) (moves moves' : List (Move ι β)) :
    code.run p (moves ++ moves') = (code.run p moves).bind (code.run · moves') :=
  List.foldlM_append

end Tasks

/-! ## Serial runs -/

structure Serial (σ κ : Type) where
  shared : σ
  sessions : Nat → κ

namespace Serial

variable (serve : ε → σ × κ → σ × κ) (job : β → σ → σ)

def exec (t : Serial σ κ) : Entry ε β → Serial σ κ
  | .own i e =>
      let (shared, session) := serve e (t.shared, t.sessions i)
      ⟨shared, Function.update t.sessions i session⟩
  | .job b => { t with shared := job b t.shared }

def run (t : Serial σ κ) (log : List (Entry ε β)) : Serial σ κ := log.foldl (exec serve job) t

theorem exec_self (t : Serial σ κ) (i : Nat) (e : ε) :
    (exec serve job t (.own i e)).sessions i = (serve e (t.shared, t.sessions i)).2 :=
  Function.update_self _ _ _

theorem exec_ne (t : Serial σ κ) {i j : Nat} (h : i ≠ j) (e : ε) :
    (exec serve job t (.own j e)).sessions i = t.sessions i :=
  Function.update_of_ne h _ _

theorem run_append (t : Serial σ κ) (log log' : List (Entry ε β)) :
    run serve job t (log ++ log') = run serve job (run serve job t log) log' :=
  List.foldl_append

theorem run_own (t : Serial σ κ) (i : Nat) (entries : List ε) :
    run serve job t (entries.map (.own i)) =
      ⟨(entries.foldl (fun s e => serve e s) (t.shared, t.sessions i)).1,
        Function.update t.sessions i
          (entries.foldl (fun s e => serve e s) (t.shared, t.sessions i)).2⟩ := by
  unfold run
  induction entries generalizing t with
  | nil => simp
  | cons e entries ih =>
      rw [List.map_cons, List.foldl_cons, ih]
      simp [exec]

end Serial

/-! ## The entries of one task -/

def Entry.of (i : Nat) : Entry ε β → Option ε
  | .own j e => if j = i then some e else none
  | .job _ => none

@[simp] theorem Entry.of_self (i : Nat) (e : ε) : (Entry.own i e : Entry ε β).of i = some e :=
  if_pos rfl

theorem Entry.of_ne {i j : Nat} (h : j ≠ i) (e : ε) : (Entry.own j e : Entry ε β).of i = none :=
  if_neg h

def entriesOf (i : Nat) (log : List (Entry ε β)) : List ε := log.filterMap (Entry.of i)

@[simp] theorem entriesOf_append (i : Nat) (log log' : List (Entry ε β)) :
    entriesOf i (log ++ log') = entriesOf i log ++ entriesOf i log' :=
  List.filterMap_append

@[simp] theorem entriesOf_own (i : Nat) (entries : List ε) :
    entriesOf i (entries.map (.own i : ε → Entry ε β)) = entries := by
  induction entries with
  | nil => rfl
  | cons e entries ih =>
      rw [List.map_cons, entriesOf, List.filterMap_cons_some (Entry.of_self i e)]
      exact congrArg (e :: ·) ih

theorem entriesOf_own_ne {i j : Nat} (h : j ≠ i) (entries : List ε) :
    entriesOf i (entries.map (.own j : ε → Entry ε β)) = [] := by
  induction entries with
  | nil => rfl
  | cons e entries ih =>
      rw [List.map_cons, entriesOf, List.filterMap_cons_none (Entry.of_ne h e)]
      exact ih

@[simp] theorem entriesOf_job (i : Nat) (b : β) :
    entriesOf i ([.job b] : List (Entry ε β)) = [] := rfl

/-- What each entry of a task keeps between the entries so far and the session, holds of
them in every serial run. -/
theorem Serial.run_session (serve : ε → σ × κ → σ × κ) (job : β → σ → σ) {Q : List ε → κ → Prop}
    {first : κ} (hfirst : Q [] first)
    (hserve : ∀ e s k done, Q done k → Q (done ++ [e]) (serve e (s, k)).2) (s₀ : σ)
    (log : List (Entry ε β)) (i : Nat) :
    Q (entriesOf i log) ((Serial.run serve job ⟨s₀, fun _ => first⟩ log).sessions i) := by
  induction log using List.reverseRecOn with
  | nil => exact hfirst
  | append_singleton log entry ih =>
      rw [Serial.run_append, entriesOf_append]
      cases entry with
      | job b => exact (List.append_nil _).symm ▸ ih
      | own j e =>
          by_cases hj : j = i
          · subst hj
            have hown : entriesOf j ([.own j e] : List (Entry ε β)) = [e] :=
              List.filterMap_cons_some (Entry.of_self j e)
            rw [hown]
            exact exec_self serve job _ j e ▸ hserve e _ _ _ ih
          · have hother : entriesOf i ([.own j e] : List (Entry ε β)) = [] :=
              List.filterMap_cons_none (Entry.of_ne hj e)
            have hsame : (Serial.run serve job (Serial.run serve job ⟨s₀, fun _ => first⟩ log)
                [.own j e]).sessions i =
                (Serial.run serve job ⟨s₀, fun _ => first⟩ log).sessions i :=
              exec_ne serve job _ (Ne.symm hj) e
            rw [hother, List.append_nil, hsame]
            exact ih

/-! ## Every run is serial -/

section
variable (code : Tasks σ τ ι ε β) (serve : ε → σ × κ → σ × κ) (first : κ)
  (R : τ → List ε → κ → Prop)

/-- The state is the one that the serial run of the log leaves, and each task stands, by
`R`, where its own entries and its session say. -/
structure IsSerial (s₀ : σ) (p : Pool σ τ ε β) : Prop where
  shared : p.shared = (Serial.run serve code.job ⟨s₀, fun _ => first⟩ p.log).shared
  tasks : ∀ i task, p.tasks[i]? = some task →
    R task (entriesOf i p.log) ((Serial.run serve code.job ⟨s₀, fun _ => first⟩ p.log).sessions i)
  idle : ∀ i, p.tasks.length ≤ i → entriesOf i p.log = [] ∧
    (Serial.run serve code.job ⟨s₀, fun _ => first⟩ p.log).sessions i = first

variable {code serve first R}

/-- **Turns that are serial by themselves are serial together.** -/
theorem Tasks.run_isSerial (hfresh : R code.fresh [] first)
    (hturn : ∀ input s task k done entries s' task', R task done k →
      code.turn input s task = some (entries, s', task') →
      (entries.foldl (fun p e => serve e p) (s, k)).1 = s' ∧
        R task' (done ++ entries) (entries.foldl (fun p e => serve e p) (s, k)).2)
    (s₀ : σ) {moves : List (Move ι β)} {p : Pool σ τ ε β}
    (h : code.run (.start s₀) moves = some p) : IsSerial code serve first R s₀ p := by
  refine Tasks.run_keeps ?_ ?_ h
  · intro p move p' hp hstep
    cases move with
    | spawn =>
        obtain rfl := Option.some.inj hstep
        refine ⟨hp.shared, fun i task htask => ?_, fun i hi => hp.idle i ?_⟩
        · by_cases hi : i < p.tasks.length
          · exact hp.tasks i task (List.getElem?_append_left hi ▸ htask)
          · have hnew := hp.idle i (by omega)
            rw [List.getElem?_append_right (by omega), List.getElem?_singleton] at htask
            split at htask
            · obtain rfl := Option.some.inj htask
              rw [hnew.1, hnew.2]
              exact hfresh
            · exact absurd htask (by simp)
        · simp only [List.length_append, List.length_singleton] at hi
          omega
    | job b =>
        obtain rfl := Option.some.inj hstep
        have hrun := Serial.run_append serve code.job ⟨s₀, fun _ => first⟩ p.log [.job b]
        refine ⟨?_, fun i task htask => ?_, fun i hi => ?_⟩
        · rw [hrun, hp.shared]
          rfl
        · rw [hrun, entriesOf_append, entriesOf_job, List.append_nil]
          exact hp.tasks i task htask
        · rw [hrun, entriesOf_append, entriesOf_job, List.append_nil]
          exact hp.idle i hi
    | turn i input =>
        obtain ⟨task, entries, task', htask, htaken, htasks, hlog⟩ := Tasks.step_turn hstep
        have hi : i < p.tasks.length := List.getElem?_eq_some_iff.mp htask |>.1
        have hlocal := hturn input _ task _ _ entries _ task' (hp.tasks i task htask) htaken
        have hrun := Serial.run_append serve code.job ⟨s₀, fun _ => first⟩ p.log
          (entries.map (.own i))
        rw [Serial.run_own, ← hp.shared] at hrun
        rw [← hlog] at hrun
        refine ⟨?_, fun j other hother => ?_, fun j hj => ?_⟩
        · rw [hrun]
          exact hlocal.1.symm
        · rw [hrun, hlog, entriesOf_append]
          by_cases hj : j = i
          · subst hj
            rw [htasks, List.getElem?_set_self hi] at hother
            obtain rfl := Option.some.inj hother
            rw [entriesOf_own]
            simpa using hlocal.2
          · rw [htasks, List.getElem?_set_ne (Ne.symm hj)] at hother
            rw [entriesOf_own_ne (Ne.symm hj), List.append_nil]
            simpa [Function.update_of_ne hj] using hp.tasks j other hother
        · rw [htasks, List.length_set] at hj
          have hne : i ≠ j := by omega
          rw [hrun, hlog, entriesOf_append, entriesOf_own_ne hne, List.append_nil]
          simpa [Function.update_of_ne hne.symm] using hp.idle j hj
  · exact ⟨rfl, fun i task htask => absurd htask (by simp [Pool.start]), fun i _ => ⟨rfl, rfl⟩⟩

end

end MiniRudis.Lib
