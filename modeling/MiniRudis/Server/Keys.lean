import MiniRudis.Server.SetCommand

/-!
# Keys, fields and members

The program keeps them as text: each is the lossy decoding of the bytes that came.
-/

namespace MiniRudis

open Lib

namespace Cmd

variable (env : Env)

/-! ## Parsing -/

theorem parse_text (name : String) (parseRest : List Bytes → Outcome Command)
    (h : (commandTable env ++ scriptTable env).lookup (toUppercase env.upper name) = some parseRest)
    (rest : List Bytes) : parse env (asBytes name :: rest) = parseRest rest := by
  rw [parse, commandName, upperText, fromUtf8Lossy_asBytes, h]

def plainArgs (k v : Bytes) : SetArgs := ⟨fromUtf8Lossy k, v, none, false, false, false, false⟩

theorem parse_set (k v : Bytes) :
    parse env [asBytes "SET", k, v] = .ok (.set (plainArgs k v)) :=
  parse_text env "SET" (parseSet env) rfl [k, v]

theorem parse_get (k : Bytes) : parse env [asBytes "GET", k] = .ok (.get (fromUtf8Lossy k)) :=
  parse_text env "GET" parseGet rfl [k]

theorem parse_hset (k f v : Bytes) :
    parse env [asBytes "HSET", k, f, v] =
      .ok (.hSet (fromUtf8Lossy k) [(fromUtf8Lossy f, v)]) := by
  have hpairs : parseHset [k, f, v] = keyPairs .hSet [k, f, v] := if_neg (by simp)
  rw [parse_text env "HSET" parseHset rfl, hpairs]
  rfl

theorem parse_hget (k f : Bytes) :
    parse env [asBytes "HGET", k, f] = .ok (.hGet (fromUtf8Lossy k) (fromUtf8Lossy f)) :=
  parse_text env "HGET" parseHget rfl [k, f]

theorem parse_sadd (k m : Bytes) :
    parse env [asBytes "SADD", k, m] = .ok (.sAdd (fromUtf8Lossy k) [fromUtf8Lossy m]) :=
  parse_text env "SADD" parseSadd rfl [k, m]

theorem parse_sismember (k m : Bytes) :
    parse env [asBytes "SISMEMBER", k, m] =
      .ok (.sIsMember (fromUtf8Lossy k) (fromUtf8Lossy m)) :=
  parse_text env "SISMEMBER" parseSismember rfl [k, m]

/-! ## Execution -/

theorem run_call_onKey {α : Type} {db : Nat} {s : Server} (key : String) (op : KeyOp α)
    (f : α → Frame) (hdb : db < s.db.dbs.length) :
    (call env (.onKey db key op) f).run ServerCall.exec s =
      (reply f (op.onCell env (s.db.cellAt db key)).1,
        { s with db := s.db.putCell db key (op.onCell env (s.db.cellAt db key)).2 }) := by
  have hrun := run_onKey env key op hdb
  rw [onKey] at hrun
  rw [call, Program.run_map, hrun]

end Cmd

/-! ## Hashes and sets -/

/-- The fields of a hash, none where there is no value yet. -/
def Cell.fields (c : Cell) : Option (StrMap Bytes) :=
  match c.obj with
  | none => some ∅
  | some o => hashKind.proj o

section
variable (env : Env)

theorem onCell_hset {c : Cell} {h : StrMap Bytes} (hfields : c.fields = some h) (field : String)
    (value : Bytes) :
    ∃ n : Nat, (KeyOp.typed (.hset [(field, value)])).onCell env c =
      (.ok n, ⟨some (.hash (h.insert field value)), c.deadline⟩) := by
  unfold Cell.fields at hfields
  cases hobj : c.obj with
  | none =>
      rw [hobj] at hfields
      obtain rfl := Option.some.inj hfields
      refine ⟨1, ?_⟩
      simp [KeyOp.onCell, TypedOp.access, Access.onCell, hobj, hashKind, Hash.hset, tally]
  | some o =>
      rw [hobj] at hfields
      obtain rfl := hashKind.inj_proj hfields
      refine ⟨(!h.contains field).toNat, ?_⟩
      simp [KeyOp.onCell, TypedOp.access, Access.onCell, hobj, hashKind, Hash.hset, tally]

theorem onCell_total {α τ : Type} {op : TypedOp α} {K : Kind τ} {absent : α} {f : τ → α}
    (hop : op.access env = .total K absent f) {v : τ} {deadline : Option Instant}
    (hlive : (⟨some (K.inj v), deadline⟩ : Cell).expired env.now = false) :
    (KeyOp.typed op).onCell env ⟨some (K.inj v), deadline⟩ =
      (.ok (f v), ⟨some (K.inj v), deadline⟩) := by
  rw [KeyOp.onCell, hop, Access.total, Access.onCell, Cell.live, hlive]
  simp [K.proj_inj]

theorem onCell_sadd_absent (member : String) :
    (KeyOp.typed (.sadd [member])).onCell env .absent =
      (.ok 1, ⟨some (.set (Std.ExtTreeSet.insert ∅ member)), none⟩) := by
  simp [KeyOp.onCell, TypedOp.access, Access.onCell, Cell.absent, setKind, HashSet.sadd, tally]

end

/-! ## Requests -/

namespace Host

variable (host : Host) (depth : Nat) (env : Env) {db : Nat} {s : Server}

theorem respond_onKey {α : Type} {args : List Bytes} {cmd : Command} {key : String} {op : KeyOp α}
    {f : α → Frame} (hparse : Cmd.parse env args = .ok cmd) (hquit : cmd ≠ .quit)
    (hselect : ∀ idx, cmd ≠ .select idx)
    (hexec : ∀ last, Cmd.executeOn host.os env db last cmd = Cmd.call env (.onKey db key op) f)
    (hdb : db < s.db.dbs.length) :
    (host.respond depth env db args).run ServerCall.exec s =
      (goOn (Cmd.reply f (op.onCell env (s.db.cellAt db key)).1, db),
        { s with db := s.db.putCell db key (op.onCell env (s.db.cellAt db key)).2 }) := by
  rw [host.respond_run depth hparse hquit, host.execute_run depth env db hselect, hexec,
    Cmd.run_call_onKey env key op f hdb]

theorem respond_read {α : Type} {args : List Bytes} {cmd : Command} {key : String} {op : TypedOp α}
    {f : α → Frame} {a : α} (hparse : Cmd.parse env args = .ok cmd) (hquit : cmd ≠ .quit)
    (hselect : ∀ idx, cmd ≠ .select idx)
    (hexec : ∀ last, Cmd.executeOn host.os env db last cmd = Cmd.callTyped env db key op f)
    (hdb : db < s.db.dbs.length) {c : Cell} (hcell : s.db.cellAt db key = c)
    (hread : (KeyOp.typed op).onCell env c = (.ok a, c)) :
    (host.respond depth env db args).run ServerCall.exec s = ((.ok (f a), some db), s) := by
  rw [host.respond_onKey depth env hparse hquit hselect hexec hdb, hcell, hread, ← hcell,
    Database.putCell_cellAt]
  rfl

theorem respond_set_plain (k v : Bytes) (hdb : db < s.db.dbs.length) :
    (host.respond depth env db [asBytes "SET", k, v]).run ServerCall.exec s =
      ((.ok .ok, some db),
        { s with db := s.db.putCell db (fromUtf8Lossy k) (.ofStr v) }) := by
  have ha : (Cmd.plainArgs k v).Parsed := ⟨fun h => absurd h.1 nofun, fun d hd => absurd hd nofun⟩
  have hwrites : (Cmd.plainArgs k v).WritesAt env db s.db :=
    ⟨hdb, Or.inl ⟨rfl, rfl⟩, fun h => absurd h nofun⟩
  obtain ⟨old, -, hrun⟩ := Cmd.execSet_writes ha hwrites
  rw [host.respond_set depth (Cmd.parse_set env k v), hrun]
  rfl

theorem respond_get {k v : Bytes} (hdb : db < s.db.dbs.length)
    (hcell : s.db.cellAt db (fromUtf8Lossy k) = .ofStr v) :
    (host.respond depth env db [asBytes "GET", k]).run ServerCall.exec s =
      ((.ok (.bulk v), some db), s) := by
  have haccess : TypedOp.get.access env = .total strKind none some := rfl
  have hlive : (⟨some (strKind.inj v), none⟩ : Cell).expired env.now = false := rfl
  exact host.respond_read depth env (f := Cmd.bulkOrNull) (a := some v) (Cmd.parse_get env k) nofun
    (fun _ => nofun) (fun _ => rfl) hdb hcell (onCell_total env haccess hlive)

theorem respond_hset (f v : Bytes) {k : Bytes} {h : StrMap Bytes} (hdb : db < s.db.dbs.length)
    (hfields : (s.db.cellAt db (fromUtf8Lossy k)).fields = some h) :
    ∃ (n : Int) (s' : Server),
      (host.respond depth env db [asBytes "HSET", k, f, v]).run ServerCall.exec s =
        ((.ok (.integer n), some db), s') ∧
      db < s'.db.dbs.length ∧
      s'.db.cellAt db (fromUtf8Lossy k) =
        ⟨some (.hash (h.insert (fromUtf8Lossy f) v)),
          (s.db.cellAt db (fromUtf8Lossy k)).deadline⟩ := by
  obtain ⟨n, hwrite⟩ := onCell_hset env hfields (fromUtf8Lossy f) v
  rw [host.respond_onKey depth env (Cmd.parse_hset env k f v) nofun (fun _ => nofun) (fun _ => rfl) hdb,
    hwrite]
  exact ⟨_, _, rfl, by simpa using hdb, Database.cellAt_putCell hdb _ _⟩

theorem respond_hget {k f : Bytes} {h : StrMap Bytes} {deadline : Option Instant}
    (hdb : db < s.db.dbs.length)
    (hcell : s.db.cellAt db (fromUtf8Lossy k) = ⟨some (.hash h), deadline⟩)
    (hlive : (⟨some (.hash h), deadline⟩ : Cell).expired env.now = false) :
    (host.respond depth env db [asBytes "HGET", k, f]).run ServerCall.exec s =
      ((.ok (Cmd.bulkOrNull h[fromUtf8Lossy f]?), some db), s) := by
  have haccess : (TypedOp.hget (fromUtf8Lossy f)).access env =
      .total hashKind.toKind none fun h => h[fromUtf8Lossy f]? := rfl
  exact host.respond_read depth env (Cmd.parse_hget env k f) nofun (fun _ => nofun) (fun _ => rfl)
    hdb hcell (onCell_total env haccess hlive)

theorem respond_sadd {k m : Bytes} (hdb : db < s.db.dbs.length)
    (hfresh : s.db.cellAt db (fromUtf8Lossy k) = .absent) :
    (host.respond depth env db [asBytes "SADD", k, m]).run ServerCall.exec s =
      ((.ok (Cmd.countFrame 1), some db),
        { s with
          db := s.db.putCell db (fromUtf8Lossy k)
            ⟨some (.set (Std.ExtTreeSet.insert ∅ (fromUtf8Lossy m))), none⟩ }) := by
  rw [host.respond_onKey depth env (Cmd.parse_sadd env k m) nofun (fun _ => nofun) (fun _ => rfl) hdb,
    hfresh, onCell_sadd_absent]
  rfl

theorem respond_sismember {k m : Bytes} {members : StrSet} (hdb : db < s.db.dbs.length)
    (hcell : s.db.cellAt db (fromUtf8Lossy k) = ⟨some (.set members), none⟩) :
    (host.respond depth env db [asBytes "SISMEMBER", k, m]).run ServerCall.exec s =
      ((.ok (Cmd.boolFrame (members.contains (fromUtf8Lossy m))), some db), s) := by
  have haccess : (TypedOp.sismember (fromUtf8Lossy m)).access env =
      .total setKind.toKind false fun s => s.contains (fromUtf8Lossy m) := rfl
  have hlive : (⟨some (setKind.inj members), none⟩ : Cell).expired env.now = false := rfl
  exact host.respond_read depth env (Cmd.parse_sismember env k m) nofun (fun _ => nofun)
    (fun _ => rfl) hdb hcell (onCell_total env haccess hlive)

/-! ## Conversations -/

theorem converse_keys (e₁ e₂ e₃ e₄ : Env) (k₁ k₂ v₁ v₂ : Bytes) (hdb : db < s.db.dbs.length) :
    (host.converse depth (some db)
      [(e₁, [asBytes "SET", k₁, v₁]), (e₂, [asBytes "SET", k₂, v₂]), (e₃, [asBytes "GET", k₁]),
        (e₄, [asBytes "GET", k₂])] s).1 =
      [.ok .ok, .ok .ok,
        .ok (.bulk (if fromUtf8Lossy k₁ = fromUtf8Lossy k₂ then v₂ else v₁)), .ok (.bulk v₂)] := by
  have hfirst : ((s.db.putCell db (fromUtf8Lossy k₁) (.ofStr v₁)).putCell db (fromUtf8Lossy k₂)
      (.ofStr v₂)).cellAt db (fromUtf8Lossy k₁) =
        .ofStr (if fromUtf8Lossy k₁ = fromUtf8Lossy k₂ then v₂ else v₁) := by
    split
    · rename_i hsame
      rw [hsame, Database.cellAt_putCell (by simpa using hdb)]
    · rename_i hdiff
      rw [Database.cellAt_putCell_ne (by simpa using hdb) hdiff, Database.cellAt_putCell hdb]
  have hsecond : ((s.db.putCell db (fromUtf8Lossy k₁) (.ofStr v₁)).putCell db (fromUtf8Lossy k₂)
      (.ofStr v₂)).cellAt db (fromUtf8Lossy k₂) = .ofStr v₂ :=
    Database.cellAt_putCell (by simpa using hdb) _ _
  rw [host.converse_cons (host.respond_set_plain depth e₁ k₁ v₁ hdb),
    host.converse_cons (host.respond_set_plain depth e₂ k₂ v₂ (by simpa using hdb)),
    host.converse_cons (host.respond_get depth e₃ (by simpa using hdb) hfirst),
    host.converse_cons (host.respond_get depth e₄ (by simpa using hdb) hsecond)]
  rfl

theorem converse_fields (e₁ e₂ e₃ e₄ : Env) (k f₁ f₂ v₁ v₂ : Bytes) {h : StrMap Bytes}
    (hdb : db < s.db.dbs.length)
    (hfields : (s.db.cellAt db (fromUtf8Lossy k)).fields = some h)
    (hlive₃ : (s.db.cellAt db (fromUtf8Lossy k)).expired e₃.now = false)
    (hlive₄ : (s.db.cellAt db (fromUtf8Lossy k)).expired e₄.now = false) :
    (host.converse depth (some db)
      [(e₁, [asBytes "HSET", k, f₁, v₁]), (e₂, [asBytes "HSET", k, f₂, v₂]),
        (e₃, [asBytes "HGET", k, f₁]), (e₄, [asBytes "HGET", k, f₂])] s).1.drop 2 =
      [.ok (.bulk (if fromUtf8Lossy f₁ = fromUtf8Lossy f₂ then v₂ else v₁)), .ok (.bulk v₂)] := by
  obtain ⟨n₁, s₁, hset₁, hdb₁, hcell₁⟩ := host.respond_hset depth e₁ f₁ v₁ hdb hfields
  have hfields₁ : (s₁.db.cellAt db (fromUtf8Lossy k)).fields =
      some (h.insert (fromUtf8Lossy f₁) v₁) := by
    rw [hcell₁]
    rfl
  obtain ⟨n₂, s₂, hset₂, hdb₂, hcell₂⟩ := host.respond_hset depth e₂ f₂ v₂ hdb₁ hfields₁
  rw [hcell₁] at hcell₂
  rw [host.converse_cons hset₁, host.converse_cons hset₂,
    host.converse_cons (host.respond_hget depth e₃ hdb₂ hcell₂ hlive₃),
    host.converse_cons (host.respond_hget depth e₄ hdb₂ hcell₂ hlive₄)]
  have hfirst : ((h.insert (fromUtf8Lossy f₁) v₁).insert (fromUtf8Lossy f₂) v₂)[fromUtf8Lossy f₁]? =
      some (if fromUtf8Lossy f₁ = fromUtf8Lossy f₂ then v₂ else v₁) := by
    rw [Std.ExtTreeMap.getElem?_insert]
    by_cases hsame : fromUtf8Lossy f₁ = fromUtf8Lossy f₂
    · simp [hsame]
    · simp [hsame, Ne.symm hsame]
  rw [hfirst, Std.ExtTreeMap.getElem?_insert_self]
  rfl

theorem converse_members (e₁ e₂ : Env) (k m₁ m₂ : Bytes) (hdb : db < s.db.dbs.length)
    (hfresh : s.db.cellAt db (fromUtf8Lossy k) = .absent) :
    (host.converse depth (some db)
      [(e₁, [asBytes "SADD", k, m₁]), (e₂, [asBytes "SISMEMBER", k, m₂])] s).1.drop 1 =
      [.ok (Cmd.boolFrame (decide (fromUtf8Lossy m₁ = fromUtf8Lossy m₂)))] := by
  have hcell := Database.cellAt_putCell hdb (fromUtf8Lossy k)
    ⟨some (.set (Std.ExtTreeSet.insert ∅ (fromUtf8Lossy m₁))), none⟩
  have hmember : (Std.ExtTreeSet.insert (∅ : StrSet) (fromUtf8Lossy m₁)).contains
      (fromUtf8Lossy m₂) = decide (fromUtf8Lossy m₁ = fromUtf8Lossy m₂) := by
    rw [Std.ExtTreeSet.contains_insert]
    by_cases hsame : fromUtf8Lossy m₁ = fromUtf8Lossy m₂
    · simp [hsame]
    · simp [hsame]
  rw [host.converse_cons (host.respond_sadd depth e₁ hdb hfresh),
    host.converse_cons (host.respond_sismember depth e₂ (by simpa using hdb) hcell), hmember]
  rfl

/-- **Keys are kept apart as texts.**  On a logical database that exists, two keys, two fields
of a hash that lasts, or two members of a fresh set do not get mixed up exactly if their
bytes decode to different texts, as the bytes of two texts do; two values that are equal do
no harm. -/
theorem converse_apart_iff (hdb : db < s.db.dbs.length) :
    (∀ (e₁ e₂ e₃ e₄ : Env) (k₁ k₂ v₁ v₂ : Bytes),
      (host.converse depth (some db)
        [(e₁, [asBytes "SET", k₁, v₁]), (e₂, [asBytes "SET", k₂, v₂]), (e₃, [asBytes "GET", k₁]),
          (e₄, [asBytes "GET", k₂])] s).1.drop 2 = [.ok (.bulk v₁), .ok (.bulk v₂)] ↔
        fromUtf8Lossy k₁ ≠ fromUtf8Lossy k₂ ∨ v₁ = v₂) ∧
    (∀ (e₁ e₂ e₃ e₄ : Env) (k f₁ f₂ v₁ v₂ : Bytes) (h : StrMap Bytes),
      (s.db.cellAt db (fromUtf8Lossy k)).fields = some h →
      (s.db.cellAt db (fromUtf8Lossy k)).expired e₃.now = false →
      (s.db.cellAt db (fromUtf8Lossy k)).expired e₄.now = false →
      ((host.converse depth (some db)
        [(e₁, [asBytes "HSET", k, f₁, v₁]), (e₂, [asBytes "HSET", k, f₂, v₂]),
          (e₃, [asBytes "HGET", k, f₁]), (e₄, [asBytes "HGET", k, f₂])] s).1.drop 2 =
          [.ok (.bulk v₁), .ok (.bulk v₂)] ↔
        fromUtf8Lossy f₁ ≠ fromUtf8Lossy f₂ ∨ v₁ = v₂)) ∧
    (∀ (e₁ e₂ : Env) (k m₁ m₂ : Bytes), s.db.cellAt db (fromUtf8Lossy k) = .absent →
      ((host.converse depth (some db)
        [(e₁, [asBytes "SADD", k, m₁]), (e₂, [asBytes "SISMEMBER", k, m₂])] s).1.drop 1 =
          [.ok (.integer 0)] ↔
        fromUtf8Lossy m₁ ≠ fromUtf8Lossy m₂)) ∧
    ∀ t₁ t₂ : String, asBytes t₁ ≠ asBytes t₂ →
      fromUtf8Lossy (asBytes t₁) ≠ fromUtf8Lossy (asBytes t₂) := by
  have hvalues : ∀ (a b : String) (v₁ v₂ : Bytes),
      ([.ok (.bulk (if a = b then v₂ else v₁)), .ok (.bulk v₂)] : List (Outcome Frame)) =
        [.ok (.bulk v₁), .ok (.bulk v₂)] ↔ a ≠ b ∨ v₁ = v₂ := by
    intro a b v₁ v₂
    by_cases hsame : a = b
    · simp [hsame, eq_comm]
    · simp [hsame]
  refine ⟨?_, ?_, ?_, ?_⟩
  · intro e₁ e₂ e₃ e₄ k₁ k₂ v₁ v₂
    rw [host.converse_keys depth e₁ e₂ e₃ e₄ k₁ k₂ v₁ v₂ hdb]
    exact hvalues _ _ _ _
  · intro e₁ e₂ e₃ e₄ k f₁ f₂ v₁ v₂ h hfields hlive₃ hlive₄
    rw [host.converse_fields depth e₁ e₂ e₃ e₄ k f₁ f₂ v₁ v₂ hdb hfields hlive₃ hlive₄]
    exact hvalues _ _ _ _
  · intro e₁ e₂ k m₁ m₂ hfresh
    rw [host.converse_members depth e₁ e₂ k m₁ m₂ hdb hfresh]
    by_cases hsame : fromUtf8Lossy m₁ = fromUtf8Lossy m₂
    · simp [hsame, Cmd.boolFrame]
    · simp [hsame, Cmd.boolFrame]
  · intro t₁ t₂ hne hsame
    rw [fromUtf8Lossy_asBytes, fromUtf8Lossy_asBytes] at hsame
    exact hne (congrArg asBytes hsame)

theorem converse_apart_sample :
    (Host.plain.converse 0 (some 0)
      [(.at 0, [asBytes "SET", asBytes "a", asBytes "1"]), (.at 0, [asBytes "SET", asBytes "b", asBytes "2"]),
        (.at 0, [asBytes "GET", asBytes "a"]), (.at 0, [asBytes "GET", asBytes "b"])]
      (.new 1)).1.drop 2 = [.ok (.bulk (asBytes "1")), .ok (.bulk (asBytes "2"))] := by
  have hdb : 0 < (Server.new 1).db.dbs.length := by decide +kernel
  apply ((Host.plain.converse_apart_iff 0 hdb).1 (.at 0) (.at 0) (.at 0) (.at 0)
    (asBytes "a") (asBytes "b") (asBytes "1") (asBytes "2")).mpr
  exact Or.inl (by simp)

/-- Two bytes that start no character decode alike. -/
theorem converse_keys_collide :
    ¬ ∀ (host : Host) (depth db : Nat) (env : Env) (k₁ k₂ v₁ v₂ : Bytes) (s : Server),
      db < s.db.dbs.length → k₁ ≠ k₂ →
      (host.converse depth (some db)
        [(env, [asBytes "SET", k₁, v₁]), (env, [asBytes "SET", k₂, v₂]), (env, [asBytes "GET", k₁]),
          (env, [asBytes "GET", k₂])] s).1.drop 2 = [.ok (.bulk v₁), .ok (.bulk v₂)] := by
  intro hclaim
  have hdb : 0 < (Server.new 1).db.dbs.length := by decide +kernel
  have happart := hclaim .plain 0 0 (.at 0) [0xFF] [0xFE] [1] [2] (.new 1) hdb (by decide)
  rw [Host.plain.converse_keys 0 (.at 0) (.at 0) (.at 0) (.at 0) [0xFF] [0xFE] [1] [2] hdb] at happart
  have hsame : fromUtf8Lossy [0xFF] = fromUtf8Lossy [0xFE] := by decide +kernel
  rw [if_pos hsame] at happart
  exact absurd happart nofun

end Host

end MiniRudis
