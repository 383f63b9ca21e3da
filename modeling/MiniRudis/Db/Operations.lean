import MiniRudis.Db.Strings
import MiniRudis.Db.Lists
import MiniRudis.Db.Hashes
import MiniRudis.Db.Sets
import MiniRudis.Db.ZSets

/-!
# The operations of the database

Every method as a value of one type, so that a statement can range over all of
them.  The index of the type is the reply.
-/

namespace MiniRudis

/-- The methods that are one access to one key. -/
inductive TypedOp : Type → Type
  | get : TypedOp (Option Bytes)
  | append (val : Bytes) : TypedOp Nat
  | strlen : TypedOp Nat
  | incr (delta : Int) : TypedOp Int
  | incrFloat (delta : F64) : TypedOp F64
  | getrange (start stop : Int) : TypedOp Bytes
  | setrange (offset : Nat) (val : Bytes) : TypedOp Nat
  | lpush (values : List Bytes) : TypedOp Nat
  | rpush (values : List Bytes) : TypedOp Nat
  | lpushx (values : List Bytes) : TypedOp Nat
  | rpushx (values : List Bytes) : TypedOp Nat
  | lpop (count : Nat) : TypedOp (List Bytes)
  | rpop (count : Nat) : TypedOp (List Bytes)
  | llen : TypedOp Nat
  | lrange (start stop : Int) : TypedOp (List Bytes)
  | lindex (index : Int) : TypedOp (Option Bytes)
  | lset (index : Int) (value : Bytes) : TypedOp Unit
  | linsert (before : Bool) (pivot value : Bytes) : TypedOp Int
  | lrem (count : Int) (value : Bytes) : TypedOp Nat
  | ltrim (start stop : Int) : TypedOp Unit
  | hset (fields : List (String × Bytes)) : TypedOp Nat
  | hsetnx (field : String) (value : Bytes) : TypedOp Bool
  | hget (field : String) : TypedOp (Option Bytes)
  | hmget (fields : List String) : TypedOp (List (Option Bytes))
  | hdel (fields : List String) : TypedOp Nat
  | hexists (field : String) : TypedOp Bool
  | hgetall : TypedOp (List (String × Bytes))
  | hkeys : TypedOp (List String)
  | hvals : TypedOp (List Bytes)
  | hlen : TypedOp Nat
  | hincrby (field : String) (delta : Int) : TypedOp Int
  | hincrbyfloat (field : String) (delta : F64) : TypedOp F64
  | sadd (members : List String) : TypedOp Nat
  | srem (members : List String) : TypedOp Nat
  | smembers : TypedOp (List String)
  | sismember (member : String) : TypedOp Bool
  | smismember (members : List String) : TypedOp (List Bool)
  | scard : TypedOp Nat
  | spop (count : Nat) : TypedOp (List String)
  | srandmember (count : Int) : TypedOp (List String)
  | zadd (members : List (F64 × String)) (flags : ZAddFlags) : TypedOp Int
  | zrem (members : List String) : TypedOp Nat
  | zscore (member : String) : TypedOp (Option F64)
  | zmscore (members : List String) : TypedOp (List (Option F64))
  | zincrby (delta : F64) (member : String) : TypedOp F64
  | zrank (member : String) : TypedOp (Option Nat)
  | zrevrank (member : String) : TypedOp (Option Nat)
  | zcard : TypedOp Nat
  | zcount (min max : ScoreBound) : TypedOp Nat
  | zrange (start stop : Int) (rev withscores : Bool) : TypedOp (List (String × Option F64))
  | zrangebyscore (min max : ScoreBound) (withscores : Bool) (offset : Nat) (count : Option Nat) :
      TypedOp (List (String × Option F64))
  | zrevrangebyscore (max min : ScoreBound) (withscores : Bool) (offset : Nat)
      (count : Option Nat) : TypedOp (List (String × Option F64))
  | zremrangebyscore (min max : ScoreBound) : TypedOp Nat
  | zremrangebyrank (start stop : Int) : TypedOp Nat
  | zpopmin (count : Nat) : TypedOp (List (String × F64))
  | zpopmax (count : Nat) : TypedOp (List (String × F64))

/-- All methods that name one key. -/
inductive KeyOp : Type → Type 1
  | typed {α : Type} (op : TypedOp α) : KeyOp α
  | getset (value : Bytes) : KeyOp (Option Bytes)
  | getdel : KeyOp (Option Bytes)
  | set (value : Bytes) (expire : Option Duration) : KeyOp Unit
  | setnx (value : Bytes) : KeyOp Bool
  | setxx (value : Bytes) (expire : Option Duration) : KeyOp Bool
  | typeOf : KeyOp String
  | expire (secs : Int) : KeyOp Bool
  | pexpire (ms : Int) : KeyOp Bool
  | expireat (tsSecs : Int) : KeyOp Bool
  | pexpireat (tsMs : Int) : KeyOp Bool
  | pttl : KeyOp Int
  | ttl : KeyOp Int
  | persist : KeyOp Bool

inductive Op : Type → Type 1
  | onKey {α : Type} (db : Nat) (key : String) (op : KeyOp α) : Op α
  | existsKeys (db : Nat) (keys : List String) : Op Int
  | del (db : Nat) (keys : List String) : Op Int
  | rename (db : Nat) (src dst : String) : Op Unit
  | renamenx (db : Nat) (src dst : String) : Op Bool
  | keys (db : Nat) (pattern : String) : Op (List String)
  | dbsize (db : Nat) : Op Nat
  | flushdb (db : Nat) : Op Unit
  | flushall : Op Unit
  | randomkey (db : Nat) : Op (Option String)
  | evictExpired : Op Unit
  | mset (db : Nat) (pairs : List (String × Bytes)) : Op Unit
  | mget (db : Nat) (keys : List String) : Op (List (Option Bytes))
  | msetnx (db : Nat) (pairs : List (String × Bytes)) : Op Bool
  | lmove (db : Nat) (src dst : String) (srcLeft dstLeft : Bool) : Op (Option Bytes)
  | sunion (db : Nat) (keys : List String) : Op (List String)
  | sinter (db : Nat) (keys : List String) : Op (List String)
  | sdiff (db : Nat) (keys : List String) : Op (List String)
  | sunionstore (db : Nat) (dst : String) (keys : List String) : Op Nat
  | sinterstore (db : Nat) (dst : String) (keys : List String) : Op Nat
  | sdiffstore (db : Nat) (dst : String) (keys : List String) : Op Nat
  | smove (db : Nat) (src dst member : String) : Op Bool

variable {α β : Type}

/-! ## Running an operation -/

def TypedOp.run (env : Env) (db : Nat) (key : String) (self : Database) :
    TypedOp α → Outcome α × Database
  | get => (self.strGet env.now db key, self)
  | append val => self.strAppend env.now db key val
  | strlen => (self.strStrlen env.now db key, self)
  | incr delta => self.strIncr env.now db key delta
  | incrFloat delta => self.strIncrFloat env.now db key delta
  | getrange start stop => (self.strGetrange env.now db key start stop, self)
  | setrange offset val => self.strSetrange env.now db key offset val
  | lpush values => self.lpush env.now db key values
  | rpush values => self.rpush env.now db key values
  | lpushx values => self.lpushx env.now db key values
  | rpushx values => self.rpushx env.now db key values
  | lpop count => self.lpop env.now db key count
  | rpop count => self.rpop env.now db key count
  | llen => (self.llen env.now db key, self)
  | lrange start stop => (self.lrange env.now db key start stop, self)
  | lindex index => (self.lindex env.now db key index, self)
  | lset index value => self.lset env.now db key index value
  | linsert before pivot value => self.linsert env.now db key before pivot value
  | lrem count value => self.lrem env.now db key count value
  | ltrim start stop => self.ltrim env.now db key start stop
  | hset fields => self.hset env.now db key fields
  | hsetnx field value => self.hsetnx env.now db key field value
  | hget field => (self.hget env.now db key field, self)
  | hmget fields => (self.hmget env.now db key fields, self)
  | hdel fields => self.hdel env.now db key fields
  | hexists field => (self.hexists env.now db key field, self)
  | hgetall => (self.hgetall env.now db key, self)
  | hkeys => (self.hkeys env.now db key, self)
  | hvals => (self.hvals env.now db key, self)
  | hlen => (self.hlen env.now db key, self)
  | hincrby field delta => self.hincrby env.now db key field delta
  | hincrbyfloat field delta => self.hincrbyfloat env.now db key field delta
  | sadd members => self.sadd env.now db key members
  | srem members => self.srem env.now db key members
  | smembers => (self.smembers env.now db key, self)
  | sismember member => (self.sismember env.now db key member, self)
  | smismember members => (self.smismember env.now db key members, self)
  | scard => (self.scard env.now db key, self)
  | spop count => self.spop env.now env.chooser db key count
  | srandmember count => (self.srandmember env.now env.chooser env.draw db key count, self)
  | zadd members flags => self.zadd env.now env.levels db key members flags
  | zrem members => self.zrem env.now db key members
  | zscore member => (self.zscore env.now db key member, self)
  | zmscore members => (self.zmscore env.now db key members, self)
  | zincrby delta member => self.zincrby env.now env.levels db key delta member
  | zrank member => (self.zrank env.now db key member, self)
  | zrevrank member => (self.zrevrank env.now db key member, self)
  | zcard => (self.zcard env.now db key, self)
  | zcount min max => (self.zcount env.now db key min max, self)
  | zrange start stop rev withscores =>
      (self.zrange env.now db key start stop rev withscores, self)
  | zrangebyscore min max withscores offset count =>
      (self.zrangebyscore env.now db key min max withscores offset count, self)
  | zrevrangebyscore max min withscores offset count =>
      (self.zrevrangebyscore env.now db key max min withscores offset count, self)
  | zremrangebyscore min max => self.zremrangebyscore env.now db key min max
  | zremrangebyrank start stop => self.zremrangebyrank env.now db key start stop
  | zpopmin count => self.zpopmin env.now db key count
  | zpopmax count => self.zpopmax env.now db key count

def KeyOp.run (env : Env) (db : Nat) (key : String) (self : Database) :
    KeyOp α → Outcome α × Database
  | typed op => op.run env db key self
  | getset value => self.strGetset env.now db key value
  | getdel => self.strGetdel db key
  | set value dur => self.strSet env.now db key value dur
  | setnx value => self.strSetnx env.now db key value
  | setxx value dur => self.strSetxx env.now db key value dur
  | typeOf => (self.typeOf env.now db key, self)
  | expire secs => self.expire env.now db key secs
  | pexpire ms => self.pexpire env.now db key ms
  | expireat tsSecs => self.expireat env.now env.sysNow db key tsSecs
  | pexpireat tsMs => self.pexpireat env.now env.sysNow db key tsMs
  | pttl => (self.pttl env.now db key, self)
  | ttl => (self.ttl env.now db key, self)
  | persist => self.persist db key

def Op.run (env : Env) (self : Database) : Op α → Outcome α × Database
  | onKey db key op => op.run env db key self
  | existsKeys db names => (self.existsKeys env.now db names, self)
  | del db names => self.del db names
  | rename db src dst => self.rename db src dst
  | renamenx db src dst => self.renamenx env.now db src dst
  | keys db pattern => (self.keys env.now db pattern, self)
  | dbsize db => (self.dbsize env.now db, self)
  | flushdb db => self.flushdb db
  | flushall => (.ok (), self.flushall)
  | randomkey db => (self.randomkey env.now env.draw db, self)
  | evictExpired => (.ok (), self.evictExpired env.now)
  | mset db pairs => self.mset db pairs
  | mget db names => (self.mget env.now db names, self)
  | msetnx db pairs => self.msetnx env.now db pairs
  | lmove db src dst srcLeft dstLeft => self.lmove env.now db src dst srcLeft dstLeft
  | sunion db names => (self.sunion env.now db names, self)
  | sinter db names => (self.sinter env.now db names, self)
  | sdiff db names => (self.sdiff env.now db names, self)
  | sunionstore db dst names => self.sunionstore env.now db dst names
  | sinterstore db dst names => self.sinterstore env.now db dst names
  | sdiffstore db dst names => self.sdiffstore env.now db dst names
  | smove db src dst member => self.smove env.now db src dst member

/-! ## The access that a typed operation is -/

def Access.total {τ : Type} (K : Kind τ) (absent : α) (f : τ → α) : Access α :=
  .read K absent fun v => .ok (f v)

def TypedOp.access (env : Env) : TypedOp α → Access α
  | get => .total strKind none some
  | append val => .create strKind [] (Str.append val)
  | strlen => .total strKind 0 List.length
  | incr delta => .create strKind Str.zeroText (Str.incr delta)
  | incrFloat delta => .create strKind Str.zeroText (Str.incrFloat delta)
  | getrange start stop => .read strKind [] (Str.getrange start stop)
  | setrange offset val => .create strKind [] (Str.setrange offset val)
  | lpush values => .create listKind.toKind [] (Deque.pushAll true values)
  | rpush values => .create listKind.toKind [] (Deque.pushAll false values)
  | lpushx values => .modify listKind.toKind (.ok 0) (Deque.pushAll true values)
  | rpushx values => .modify listKind.toKind (.ok 0) (Deque.pushAll false values)
  | lpop count => .inPlace listKind [] (Deque.pop true count)
  | rpop count => .inPlace listKind [] (Deque.pop false count)
  | llen => .total listKind.toKind 0 List.length
  | lrange start stop => .total listKind.toKind [] (Deque.lrange start stop)
  | lindex index => .total listKind.toKind none (Deque.lindex index)
  | lset index value => .modify listKind.toKind (err .noSuchKey) (Deque.lset index value)
  | linsert before pivot value =>
      .modify listKind.toKind (.ok (-1)) (Deque.linsert before pivot value)
  | lrem count value => .modify listKind.toKind (.ok 0) (Deque.lrem count value)
  | ltrim start stop => .inPlace listKind () (Deque.ltrim start stop)
  | hset fields => .create hashKind.toKind ∅ (Hash.hset fields)
  | hsetnx field value => .create hashKind.toKind ∅ (Hash.hsetnx field value)
  | hget field => .total hashKind.toKind none fun h => h[field]?
  | hmget fields =>
      .total hashKind.toKind (fields.map fun _ => none) fun h => fields.map fun field => h[field]?
  | hdel fields => .inPlace hashKind 0 (Hash.hdel fields)
  | hexists field => .total hashKind.toKind false fun h => h.contains field
  | hgetall => .total hashKind.toKind [] fun h => h.toList
  | hkeys => .total hashKind.toKind [] fun h => h.keys
  | hvals => .total hashKind.toKind [] fun h => h.values
  | hlen => .total hashKind.toKind 0 fun h => h.size
  | hincrby field delta => .create hashKind.toKind ∅ (Hash.hincrby field delta)
  | hincrbyfloat field delta => .create hashKind.toKind ∅ (Hash.hincrbyfloat field delta)
  | sadd members => .create setKind.toKind ∅ (HashSet.sadd members)
  | srem members => .inPlace setKind 0 (HashSet.srem members)
  | smembers => .total setKind.toKind [] fun s => s.toList
  | sismember member => .total setKind.toKind false fun s => s.contains member
  | smismember members =>
      .total setKind.toKind (members.map fun _ => false)
        fun s => members.map fun member => s.contains member
  | scard => .total setKind.toKind 0 fun s => s.size
  | spop count => .inPlace setKind [] (HashSet.spop env.chooser count)
  | srandmember count => .read setKind.toKind [] (HashSet.srandmember env.chooser env.draw count)
  | zadd members flags => .create zsetKind.toKind .new (ZSetInner.zadd flags env.levels members)
  | zrem members => .inPlace zsetKind 0 (ZSetInner.zrem members)
  | zscore member => .total zsetKind.toKind none fun z => z.score member
  | zmscore members => .total zsetKind.toKind (members.map fun _ => none) fun z => members.map z.score
  | zincrby delta member =>
      .create zsetKind.toKind .new (ZSetInner.zincrby (env.levels 0) delta member)
  | zrank member => .total zsetKind.toKind none fun z => z.rank member
  | zrevrank member => .read zsetKind.toKind none fun z => z.revrank member
  | zcard => .total zsetKind.toKind 0 fun z => z.len
  | zcount min max => .total zsetKind.toKind 0 fun z => z.countByScore min max
  | zrange start stop rev withscores =>
      .read zsetKind.toKind [] (ZSetInner.zrange start stop rev withscores)
  | zrangebyscore min max withscores offset count =>
      .total zsetKind.toKind [] fun z => z.rangeByScore min max withscores offset count
  | zrevrangebyscore max min withscores offset count =>
      .total zsetKind.toKind [] fun z => z.revrangeByScore max min withscores offset count
  | zremrangebyscore min max =>
      .inPlace zsetKind 0 fun z => ZSetInner.succeed (z.removeByScore min max)
  | zremrangebyrank start stop => .inPlace zsetKind 0 fun z => z.removeByRank start stop
  | zpopmin count => .inPlace zsetKind [] fun z => ZSetInner.succeed (z.popMin count)
  | zpopmax count => .inPlace zsetKind [] fun z => ZSetInner.succeed (z.popMax count)

def TypedOp.valueType : TypedOp α → String
  | get | append _ | strlen | incr _ | incrFloat _ | getrange .. | setrange .. => "string"
  | lpush _ | rpush _ | lpushx _ | rpushx _ | lpop _ | rpop _ | llen | lrange .. | lindex _
  | lset .. | linsert .. | lrem .. | ltrim .. => "list"
  | hset _ | hsetnx .. | hget _ | hmget _ | hdel _ | hexists _ | hgetall | hkeys | hvals | hlen
  | hincrby .. | hincrbyfloat .. => "hash"
  | sadd _ | srem _ | smembers | sismember _ | smismember _ | scard | spop _
  | srandmember _ => "set"
  | zadd .. | zrem _ | zscore _ | zmscore _ | zincrby .. | zrank _ | zrevrank _ | zcard
  | zcount .. | zrange .. | zrangebyscore .. | zrevrangebyscore .. | zremrangebyscore ..
  | zremrangebyrank .. | zpopmin _ | zpopmax _ => "zset"

theorem TypedOp.kindName_access (op : TypedOp α) (env : Env) :
    (op.access env).kindName = op.valueType := by
  cases op <;> rfl

namespace Database

/-- Writing back what was read changes nothing. -/
theorem withDb_read (self : Database) (db : Nat) (f : LogicalDb → Outcome α) :
    self.withDb db (fun ldb => (f ldb, ldb)) = (self.readDb db f, self) := by
  unfold withDb readDb
  cases hdb : self.dbs[db]? with
  | none => rfl
  | some ldb =>
      obtain ⟨hlt, hget⟩ := List.getElem?_eq_some_iff.mp hdb
      simp [← hget]

theorem access_read {τ : Type} (self : Database) (now : Instant) (db : Nat) (key : String)
    (K : Kind τ) (absent : α) (f : τ → Outcome α) :
    (self.readDb db (LogicalDb.readAs K absent f now key), self) =
      self.access now db key (.read K absent f) :=
  (self.withDb_read db (LogicalDb.readAs K absent f now key)).symm

end Database

theorem TypedOp.run_eq (op : TypedOp α) (env : Env) (db : Nat) (key : String) (self : Database) :
    op.run env db key self = self.access env.now db key (op.access env) := by
  cases op <;> first
    | rfl
    | exact Database.access_read _ _ _ _ _ _ _

end MiniRudis
