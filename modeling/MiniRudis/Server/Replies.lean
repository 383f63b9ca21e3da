import MiniRudis.Server.Filled
import MiniRudis.Proto.Splitting

/-!
# One reply for one request

The bytes of a reply are one frame, unless the text for an unknown command carries a
CR LF out of the request.
-/

namespace MiniRudis

open Lib

namespace Cmd

/-- The name is known, or neither it nor an argument that is shown with it contains
CR LF. -/
def OneLine (env : Env) (name : Bytes) (rest : List Bytes) : Prop :=
  ((commandTable env).lookup (commandName env name)).isSome ∨
    ¬ BreaksLine (commandName env name) ∧ ∀ b ∈ rest.take 3, ¬ BreaksLine (fromUtf8Lossy b)

theorem breaksLine_unknownText (env : Env) (name : Bytes) (rest : List Bytes) :
    BreaksLine (RedisError.generic (unknownText env name rest)).text ↔
      BreaksLine (commandName env name) ∨ ∃ b ∈ rest.take 3, BreaksLine (fromUtf8Lossy b) := by
  have herr : Quiet (asBytes "ERR ") := by decide +kernel
  have hhead : Quiet (asBytes "ERR unknown command `") := by decide +kernel
  have hargs : Quiet (asBytes "`, with args beginning with: ") := by decide +kernel
  have hcomma : Quiet (asBytes ", ") := by decide +kernel
  have hquote : Quiet (asBytes "`") := by decide +kernel
  have hquoted : ∀ s : String, BreaksLine ("`" ++ s ++ "`") ↔ BreaksLine s := by
    intro s
    rw [breaksLine_after hquote, breaksLine_before hquote]
  have htext : (RedisError.generic (unknownText env name rest)).text =
      "ERR " ++ ("ERR unknown command `" ++ commandName env name ++ "`, with args beginning with: " ++
        ", ".intercalate ((rest.take 3).map fun b => "`" ++ fromUtf8Lossy b ++ "`")) := rfl
  rw [htext, breaksLine_before herr, breaksLine_between hargs, breaksLine_before hhead,
    breaksLine_intercalate hcomma]
  simp only [List.mem_map, exists_exists_and_eq_and, hquoted]

end Cmd

namespace Host

variable (host : Host)

theorem respond_safe (depth : Nat) (env : Env) (db : Nat) {args : List Bytes}
    (h : Returns Command.IsData Fault.Plain (Cmd.parse env args)) :
    (host.respond depth env db args).Meets ServerCall.Full ServerCall.Answers
      fun r => SafeReply r.1 := by
  unfold respond
  split
  · rename_i e hparse
    exact .ret (Plain.lineSafe (h.error hparse))
  · exact .ret rfl
  · exact .ret Frame.lineSafe_ok
  · rename_i cmd _ hparse
    apply (Cmd.execute_safe host.os env db _ (h.ok hparse)).map
    rintro ⟨frame, db⟩ hframe
    cases frame with
    | ok frame => exact hframe
    | error e => exact hframe

/-- **One request, one reply frame.**  For an argument vector that names no scripting
command, what the connection loop writes is read back as the one frame that it wrote, with
nothing left over, exactly if the name is known or neither the name nor one of the first
three arguments contains CR LF. -/
theorem respond_one_frame_iff (depth : Nat) (reserve : Nat → Bool) (env : Env) (db : Nat)
    (name : Bytes) (rest : List Bytes) (hname : Cmd.commandName env name ∉ Cmd.scriptNames)
    (s : Server) {frame : Frame}
    (hreply : ((host.respond depth env db (name :: rest)).run ServerCall.exec s).1.1 = .ok frame)
    (hstorable : frame.Storable reserve) :
    parseFrame reserve frame.serialize = (.ok (some frame), []) ↔ Cmd.OneLine env name rest := by
  have hparse := Cmd.parse_data env name rest hname
  unfold Cmd.OneLine
  cases hlookup : (Cmd.commandTable env).lookup (Cmd.commandName env name) with
  | some parseRest =>
      rw [hlookup] at hparse
      have hmeets := @respond_safe host depth env db
      -- nothing is to be computed from the request
      generalize host.respond depth env db = respond at hmeets hreply
      have hsafe := (hmeets hparse).result ServerCall.exec_answers s
      rw [hreply] at hsafe
      exact iff_of_true (parseFrame_alone hstorable hsafe) (Or.inl rfl)
  | none =>
      rw [hlookup] at hparse
      have hrun : host.respond depth env db (name :: rest) =
          .ret (.ok (.fromError (.generic (Cmd.unknownText env name rest))), some db) := by
        rw [respond, hparse]
        rfl
      rw [hrun] at hreply
      obtain rfl := Except.ok.inj hreply
      rw [Frame.fromError, parseFrame_error_frame_iff, Cmd.breaksLine_unknownText]
      simp

theorem respond_one_frame_sample :
    parseFrame (fun _ => true) Frame.pong.serialize = (.ok (some .pong), []) :=
  (Host.plain.respond_one_frame_iff 0 (fun _ => true) (.at 0) 0 (asBytes "PING") []
    (by decide +kernel) (.new 1) rfl trivial).mpr (Or.inl rfl)

/-- The name of a command that does not exist, with a reply of its own in it. -/
def forgedName : Bytes := asBytes "X\r\n+OK\r\n"

theorem respond_forged :
    ¬ ∀ (host : Host) (depth : Nat) (reserve : Nat → Bool) (env : Env) (db : Nat) (name : Bytes)
        (rest : List Bytes), Cmd.commandName env name ∉ Cmd.scriptNames →
      ∀ (s : Server) (frame : Frame),
        ((host.respond depth env db (name :: rest)).run ServerCall.exec s).1.1 = .ok frame →
        frame.Storable reserve →
        parseFrame reserve frame.serialize = (.ok (some frame), []) := by
  intro hclaim
  have hone := hclaim .plain 0 (fun _ => true) (.at 0) 0 forgedName [] (by decide +kernel) (.new 1)
    (.fromError (.generic (Cmd.unknownText (.at 0) forgedName []))) (by rfl) trivial
  rw [Frame.fromError, parseFrame_error_frame_iff, Cmd.breaksLine_unknownText] at hone
  exact hone (Or.inl (by decide +kernel))

end Host

end MiniRudis
