import MiniRudis.Cmd.Parsed
import MiniRudis.Db.Errors
import MiniRudis.Db.Filled

/-!
# What a command calls and replies

A command on the data makes calls whose lists have elements if its own have, and
replies with a frame that has no CR LF in its lines, or panics.
-/

namespace MiniRudis

open Lib

variable {α : Type}

/-! ## Calls -/

def ServerCall.Full : (β : Type) → ServerCall β → Prop
  | _, db _ op => op.Full
  | _, _ => True

def ServerCall.Answers : (β : Type) → ServerCall β → β → Prop
  | _, db _ op, reply => Returns op.Answer Fault.Plain reply
  | _, _, _ => True

theorem ServerCall.exec_answers (β : Type) (call : ServerCall β) (s : Server) :
    ServerCall.Answers β call (exec β call s).1 := by
  cases call with
  | db env op => exact op.run_answers env s.db
  | cacheGet | cacheInsert | cacheClear => trivial

/-! ## Frames -/

namespace Frame

theorem lineSafeAll {frames : List Frame} (h : ∀ f ∈ frames, f.LineSafe) :
    LineSafeAll frames := by
  induction frames with
  | nil => trivial
  | cons f frames ih =>
      exact ⟨h f List.mem_cons_self, ih fun g hg => h g (List.mem_cons_of_mem _ hg)⟩

theorem lineSafe_map {f : α → Frame} (h : ∀ a, (f a).LineSafe) (items : List α) :
    (array (items.map f)).LineSafe := by
  apply lineSafeAll
  intro frame hframe
  obtain ⟨a, -, rfl⟩ := List.mem_map.mp hframe
  exact h a

theorem lineSafe_flatMap {f : α → List Frame} (h : ∀ a, ∀ frame ∈ f a, frame.LineSafe)
    (items : List α) : (array (items.flatMap f)).LineSafe := by
  apply lineSafeAll
  intro frame hframe
  obtain ⟨a, -, ha⟩ := List.mem_flatMap.mp hframe
  exact h a frame ha

theorem lineSafe_ok : Frame.ok.LineSafe :=
  Plain.lineSafe (by decide : Plain "OK")

end Frame

/-- A frame without CR LF in its lines, or a panic. -/
abbrev SafeReply (r : Outcome Frame) : Prop := Returns Frame.LineSafe (· = .panicked) r

abbrev CmdM.Safe (p : CmdM (Outcome Frame)) : Prop :=
  p.Meets ServerCall.Full ServerCall.Answers SafeReply

namespace Cmd

theorem lineSafe_bulkOrNull (v : Option Bytes) : (bulkOrNull v).LineSafe := by
  cases v <;> trivial

theorem lineSafe_strOrNull (s : Option String) : (strOrNull s).LineSafe := by
  cases s <;> trivial

theorem lineSafe_bulkFrames (items : List Bytes) : (bulkFrames items).LineSafe :=
  Frame.lineSafe_map (f := .bulk) (fun _ => trivial) items

theorem lineSafe_strFrames (items : List String) : (strFrames items).LineSafe :=
  Frame.lineSafe_map (f := .bulkStr) (fun _ => trivial) items

theorem lineSafe_bulkOrNullFrames (items : List (Option Bytes)) :
    (bulkOrNullFrames items).LineSafe :=
  Frame.lineSafe_map lineSafe_bulkOrNull items

theorem lineSafe_floatOrNull (f : Option F64) : (floatOrNull f).LineSafe := by
  cases f <;> trivial

theorem lineSafe_countOrNull (n : Option Nat) : (countOrNull n).LineSafe := by
  cases n <;> trivial

theorem lineSafe_popFrame (single : Bool) (items : List Bytes) :
    (popFrame single items).LineSafe := by
  unfold popFrame
  split
  · trivial
  · split
    · trivial
    · exact lineSafe_bulkFrames _

theorem lineSafe_drawnFrame (single : Bool) (members : List String) :
    (drawnFrame single members).LineSafe := by
  unfold drawnFrame
  split
  · exact lineSafe_strOrNull _
  · exact lineSafe_strFrames members

theorem lineSafe_pairFrames (pairs : List (String × Bytes)) : (pairFrames pairs).LineSafe := by
  apply Frame.lineSafe_flatMap
  rintro ⟨field, value⟩ frame hframe
  simp only [List.mem_cons, List.not_mem_nil, or_false] at hframe
  obtain rfl | rfl := hframe <;> trivial

theorem lineSafe_buildMemberScoreArray (items : List (String × Option F64)) :
    (buildMemberScoreArray items).LineSafe := by
  apply Frame.lineSafe_flatMap
  rintro ⟨member, score⟩ frame hframe
  cases score with
  | none =>
      obtain rfl := List.mem_singleton.mp hframe
      trivial
  | some s =>
      simp only [List.mem_cons, List.not_mem_nil, or_false] at hframe
      obtain rfl | rfl := hframe <;> trivial

theorem lineSafe_poppedArray (items : List (String × F64)) : (poppedArray items).LineSafe := by
  apply Frame.lineSafe_flatMap
  rintro ⟨member, score⟩ frame hframe
  simp only [List.mem_cons, List.not_mem_nil, or_false] at hframe
  obtain rfl | rfl := hframe <;> trivial

/-! ## Replies -/

theorem reply_safe {A : α → Prop} {f : α → Frame} {r : Outcome α} (hr : Returns A Fault.Plain r)
    (hf : ∀ a, A a → (f a).LineSafe) : SafeReply (reply f r) := by
  cases r with
  | ok a => exact hf a hr
  | error e =>
      cases e with
      | err e => exact Plain.lineSafe hr
      | panicked => rfl

theorem refusal_safe {e : Fault} (he : e.Plain) : SafeReply (reply id (.error e)) :=
  reply_safe (A := fun _ => False) he fun _ h => h.elim

theorem ignoring_safe (r : Outcome α) {f : Frame} (hf : f.LineSafe) : SafeReply (ignoring r f) := by
  unfold ignoring
  split
  · rfl
  · exact hf

theorem lift_meets (env : Env) (op : Op α) (hop : op.Full) :
    (Program.lift (ServerCall.db env op)).Meets ServerCall.Full ServerCall.Answers
      (Returns op.Answer Fault.Plain) :=
  .call hop fun _ hreply => .ret hreply

theorem onKey_meets (env : Env) (db : Nat) (key : String) (op : KeyOp α) (hop : op.Full) :
    (onKey env db key op).Meets ServerCall.Full ServerCall.Answers
      (Returns op.Answer Fault.Plain) :=
  lift_meets env (.onKey db key op) hop

theorem call_safe {env : Env} {op : Op α} {f : α → Frame} (hop : op.Full)
    (hf : ∀ a, op.Answer a → (f a).LineSafe) : CmdM.Safe (call env op f) :=
  (lift_meets env op hop).map fun _ hreply => reply_safe hreply hf

theorem callTyped_safe {env : Env} {db : Nat} {key : String} {op : TypedOp α} {f : α → Frame}
    (hop : op.Full) (hf : ∀ a, (f a).LineSafe) : CmdM.Safe (callTyped env db key op f) := by
  have hfull : (Op.onKey db key (.typed op)).Full := hop
  exact call_safe hfull fun a _ => hf a

/-! ## Commands with a course of their own -/

theorem setWrite_meets (args : SetArgs) (env : Env) (db : Nat) :
    (setWrite args env db).Meets ServerCall.Full ServerCall.Answers
      (Returns (fun _ => True) Fault.Plain) := by
  unfold setWrite
  split
  · apply (onKey_meets env db args.key (.setnx args.value) trivial).bind
    intro written hwritten
    split
    · rename_i exp _
      apply (onKey_meets env db args.key (.expire exp.asSecs) trivial).bind
      intro expired _
      split <;> exact .ret trivial
    · exact .ret (hwritten.mono (fun _ _ => trivial) fun _ h => h)
  · split
    · exact onKey_meets env db args.key (.setxx args.value args.expire) trivial
    · apply (onKey_meets env db args.key (.set args.value args.expire) trivial).bind
      intro written hwritten
      exact .ret (hwritten.map fun _ _ => trivial)

theorem execSet_safe (args : SetArgs) (env : Env) (db : Nat) : CmdM.Safe (execSet args env db) := by
  have hold : (setOld args env db).Meets ServerCall.Full ServerCall.Answers
      (Returns (fun _ => True) Fault.Plain) := by
    unfold setOld
    split
    · exact onKey_meets env db args.key (.typed .get) trivial
    · exact .ret trivial
  apply hold.bind
  intro old hold
  cases old with
  | error e => exact .ret (reply_safe (A := fun _ => True) hold fun v _ => lineSafe_bulkOrNull v)
  | ok old =>
      apply (setWrite_meets args env db).bind
      intro written hwritten
      apply Program.Meets.ret
      apply reply_safe hwritten
      intro b _
      unfold setFrame
      split
      · split
        · exact lineSafe_bulkOrNull old
        · exact Frame.lineSafe_ok
      · trivial

theorem execGetex_safe (args : GetExArgs) (env : Env) (db : Nat) :
    CmdM.Safe (execGetex args env db) := by
  apply (onKey_meets env db args.key (.typed .get) trivial).bind
  intro val hval
  split
  · exact .ret (reply_safe (A := fun _ => True) hval fun v _ => lineSafe_bulkOrNull v)
  · exact .ret trivial
  · split
    · apply (onKey_meets env db args.key .persist trivial).bind
      intro persisted _
      exact .ret (ignoring_safe persisted trivial)
    · split
      · exact .ret trivial
      · rename_i exp _
        apply (onKey_meets env db args.key (.pexpire exp.asMillis) trivial).bind
        intro expired _
        exact .ret (ignoring_safe expired trivial)

theorem scoreBoundParse_returns (s : String) :
    Returns (fun _ => True) Fault.Reported (ScoreBound.parse s) := by
  unfold ScoreBound.parse
  split
  · trivial
  · split
    · trivial
    · split <;> split <;> first
        | trivial
        | exact (by decide : Plain RedisError.notFloat.text)

theorem withBounds_safe (first second : String) {k : ScoreBound → ScoreBound → CmdM (Outcome Frame)}
    (hk : ∀ a b, CmdM.Safe (k a b)) : CmdM.Safe (withBounds first second k) := by
  have hfirst := scoreBoundParse_returns first
  have hsecond := scoreBoundParse_returns second
  unfold withBounds
  split
  · rename_i e hparse
    exact .ret (refusal_safe (hfirst.error hparse).plain)
  · rename_i e _ hparse
    exact .ret (refusal_safe (hsecond.error hparse).plain)
  · exact hk _ _

/-! ## All commands on the data -/

theorem executeOn_safe (os : String) (env : Env) (db : Nat)
    (last : Command → CmdM (Outcome Frame)) {cmd : Command} (h : cmd.IsData)
    (hselect : ∀ idx, cmd ≠ .select idx) : CmdM.Safe (executeOn os env db last cmd) := by
  cases cmd with
  | ping msg =>
      cases msg with
      | none => exact .ret (Plain.lineSafe (by decide : Plain "PONG"))
      | some msg => exact .ret trivial
  | echo | info => exact .ret trivial
  | quit => exact .ret Frame.lineSafe_ok
  | select idx => exact absurd rfl (hselect idx)
  | type key => exact call_safe trivial fun name hname => Plain.lineSafe hname
  | flushdb | flushall | rename | mset => exact call_safe trivial fun _ _ => Frame.lineSafe_ok
  | keys pattern => exact call_safe trivial fun names _ => lineSafe_strFrames names
  | randomkey => exact call_safe trivial fun name _ => lineSafe_strOrNull name
  | set args => exact execSet_safe args env db
  | getEx args => exact execGetex_safe args env db
  | decrBy key delta =>
      unfold executeOn Strings.execute
      dsimp only
      split
      · rename_i e hneg
        rw [arithI64_error hneg]
        exact .ret rfl
      · exact callTyped_safe trivial fun _ => trivial
  | getSet | getDel | lMove => exact call_safe trivial fun v _ => lineSafe_bulkOrNull v
  | mget => exact call_safe trivial fun vs _ => lineSafe_bulkOrNullFrames vs
  | get | lIndex | hGet => exact callTyped_safe trivial lineSafe_bulkOrNull
  | lPush | rPush | lPushX | rPushX | hSet | sAdd | zAdd =>
      exact callTyped_safe h.full fun _ => trivial
  | hMSet => exact callTyped_safe h.full fun _ => Frame.lineSafe_ok
  | lPop | rPop => exact callTyped_safe trivial (lineSafe_popFrame _)
  | lRange | hVals => exact callTyped_safe trivial lineSafe_bulkFrames
  | lSet | lTrim => exact callTyped_safe trivial fun _ => Frame.lineSafe_ok
  | hMGet => exact callTyped_safe trivial lineSafe_bulkOrNullFrames
  | hGetAll => exact callTyped_safe trivial lineSafe_pairFrames
  | hKeys | sMembers => exact callTyped_safe trivial lineSafe_strFrames
  | sMIsMember => exact callTyped_safe trivial (Frame.lineSafe_map fun _ => trivial)
  | sUnion | sInter | sDiff => exact call_safe trivial fun names _ => lineSafe_strFrames names
  | sPop | sRandMember => exact callTyped_safe trivial (lineSafe_drawnFrame _)
  | zScore => exact callTyped_safe trivial lineSafe_floatOrNull
  | zMScore => exact callTyped_safe trivial (Frame.lineSafe_map lineSafe_floatOrNull)
  | zRank | zRevRank => exact callTyped_safe trivial lineSafe_countOrNull
  | zCount =>
      exact withBounds_safe _ _ fun _ _ => callTyped_safe trivial fun _ => trivial
  | zRemRangeByScore =>
      exact withBounds_safe _ _ fun _ _ => callTyped_safe trivial fun _ => trivial
  | zRangeByScore | zRevRangeByScore =>
      exact withBounds_safe _ _ fun _ _ => callTyped_safe trivial lineSafe_buildMemberScoreArray
  | zRange | zRevRange => exact callTyped_safe trivial lineSafe_buildMemberScoreArray
  | zPopMin | zPopMax => exact callTyped_safe trivial lineSafe_poppedArray
  | eval | evalSha | scriptLoad | scriptFlush => exact absurd h.notScripting.symm Bool.false_ne_true
  | dbsize | del | existsKeys | renamenx | expire | pExpire | expireAt | pExpireAt | ttl | pttl
  | persist | msetnx | setnx | sUnionStore | sInterStore | sDiffStore | sMove =>
      exact call_safe trivial fun _ _ => trivial
  | setex | pSetex => exact call_safe trivial fun _ _ => Frame.lineSafe_ok
  | incr | incrBy | incrByFloat | decr | append | strlen | getRange | setRange | lLen | lInsert
  | lRem | hSetnx | hDel | hExists | hLen | hIncrBy | hIncrByFloat | sRem | sIsMember | sCard
  | zRem | zIncrBy | zCard | zRemRangeByRank => exact callTyped_safe trivial fun _ => trivial

theorem execute_safe (os : String) (env : Env) (db : Nat)
    (last : Command → CmdM (Outcome Frame)) {cmd : Command} (h : cmd.IsData) :
    (execute os env db last cmd).Meets ServerCall.Full ServerCall.Answers
      fun r => SafeReply r.1 := by
  unfold execute
  split
  · split
    · exact .ret (Plain.lineSafe (by decide : Plain RedisError.dbIndexOutOfRange.text))
    · exact .ret Frame.lineSafe_ok
  · rename_i hselect
    apply (executeOn_safe os env db last h hselect).bind
    intro frame hframe
    exact .ret hframe

/-- A scripting command falls through to the last arms. -/
theorem executeOn_scripting (os : String) (env : Env) (db : Nat)
    (last : Command → CmdM (Outcome Frame)) {cmd : Command} (h : cmd.isScripting = true) :
    executeOn os env db last cmd = last cmd := by
  cases cmd with
  | eval | evalSha | scriptLoad | scriptFlush => rfl
  | _ => exact absurd h nofun

/-- Whatever the last arms do, so that they make such calls only. -/
theorem execute_meets (os : String) (env : Env) (db : Nat) {last : Command → CmdM (Outcome Frame)}
    (hlast : ∀ cmd, (last cmd).Meets ServerCall.Full ServerCall.Answers fun _ => True)
    {cmd : Command} (h : cmd.Full) :
    (execute os env db last cmd).Meets ServerCall.Full ServerCall.Answers fun _ => True := by
  cases hscript : cmd.isScripting with
  | false => exact (execute_safe os env db last ⟨hscript, h⟩).mono fun _ _ => trivial
  | true =>
      unfold execute
      split
      · exact absurd hscript nofun
      · rw [executeOn_scripting os env db last hscript]
        exact (hlast cmd).bind fun frame _ => .ret trivial

end Cmd

end MiniRudis
