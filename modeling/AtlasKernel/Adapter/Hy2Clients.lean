import AtlasKernel.Shadowsocks.LanePool

/-! The clients of the Hysteria2 adapter, a pool of them for each key. A call looks for a client
and, where there is none, makes one and puts it into the pool; the cache is locked for each of
the two, and between them other calls come. Source: `adapter/hysteria2.rs`. -/
namespace AtlasKernel.Adapter
open AtlasKernel.Lib AtlasKernel.Shadowsocks

def hy2ClientPoolSize : Nat := 4

/-- A client goes by its number. -/
structure Hy2ClientPool where
  clients : List Nat
  next : UInt64
deriving DecidableEq, Repr

def Hy2ClientPool.nextClient (pool : Hy2ClientPool) : Option Nat × Hy2ClientPool :=
  if pool.clients.isEmpty then (none, pool)
  else (pool.clients[pool.next.toNat % pool.clients.length]?, { pool with next := pool.next + 1 })

/-- `made` counts the clients; a call that has made one waits to put it under its key. -/
structure Hy2Clients where
  pools : String → Option Hy2ClientPool
  calls : List (Option (String × Nat))
  made : Nat

inductive Hy2Event where
  | getOrConnect (key : String)
  | insert (call : Nat)
  | removeCached (key : String)

/-- What a call returns: its own client, now in the pool, or one that the pool had. -/
inductive Hy2Output where
  | adds (key : String) (client : Nat)
  | shares (key : String) (client : Nat)

namespace Hy2Clients

def new : Hy2Clients := ⟨fun _ => none, [], 0⟩

def setPool (s : Hy2Clients) (key : String) (pool : Hy2ClientPool) : Hy2Clients :=
  { s with pools := Function.update s.pools key (some pool) }

/-- `cached_client`, which leaves the turn to the next client. -/
def cachedClient (s : Hy2Clients) (key : String) : Option Nat × Hy2Clients :=
  match s.pools key with
  | none => (none, s)
  | some pool => (pool.nextClient.1, s.setPool key pool.nextClient.2)

def step (s : Hy2Clients) : Hy2Event → Hy2Clients × List Hy2Output
  | .getOrConnect key =>
    match s.cachedClient key with
    | (some client, s) => (s, [.shares key client])
    | (none, s) => ({ s with calls := s.calls ++ [some (key, s.made)], made := s.made + 1 }, [])
  | .insert call =>
    match s.calls[call]? with
    | some (some (key, client)) =>
      let pool := (s.pools key).getD ⟨[], 0⟩
      let s := { s with calls := s.calls.set call none }
      if pool.clients.length < hy2ClientPoolSize then
        (s.setPool key { pool with clients := pool.clients ++ [client] }, [.adds key client])
      else
        match pool.nextClient with
        | (some shared, pool) => (s.setPool key pool, [.shares key shared])
        | (none, pool) => (s.setPool key pool, [.adds key client])
    | _ => (s, [])
  | .removeCached key => ({ s with pools := Function.update s.pools key none }, [])

def size (s : Hy2Clients) (key : String) : Nat := ((s.pools key).getD ⟨[], 0⟩).clients.length

/-- A client is shared only out of a pool of the configured size. -/
def FillsFirst (s : Hy2Clients) (event : Hy2Event) : Prop :=
  ∀ key client, .shares key client ∈ (s.step event).2 → hy2ClientPoolSize ≤ s.size key

/-- A call comes to a pool that has no client yet, or all of them. -/
def EmptyOrFull (s : Hy2Clients) : Hy2Event → Prop
  | .getOrConnect key => s.size key = 0 ∨ hy2ClientPoolSize ≤ s.size key
  | _ => True

instance (s : Hy2Clients) : (event : Hy2Event) → Decidable (s.EmptyOrFull event)
  | .getOrConnect _ => inferInstanceAs (Decidable (_ ∨ _))
  | .insert _ | .removeCached _ => .isTrue trivial

theorem nextClient_isSome (pool : Hy2ClientPool) :
    pool.nextClient.1.isSome = true ↔ pool.clients.length ≠ 0 := by
  unfold Hy2ClientPool.nextClient
  by_cases hempty : pool.clients = []
  · simp [hempty]
  · have hlt := Nat.mod_lt pool.next.toNat (List.length_pos_iff.mpr hempty)
    simp [hempty, hlt]

theorem cachedClient_isSome (s : Hy2Clients) (key : String) :
    (s.cachedClient key).1.isSome = true ↔ s.size key ≠ 0 := by
  rw [cachedClient, size]
  cases s.pools key with
  | none => simp
  | some pool => exact nextClient_isSome pool

/-- A call shares a client exactly if its pool has one. -/
theorem getOrConnect_shares (s : Hy2Clients) (key key' : String) :
    (∃ client, .shares key' client ∈ (s.step (.getOrConnect key)).2) ↔ key' = key ∧ s.size key ≠ 0 := by
  rw [← cachedClient_isSome, step]
  split
  · next client s' heq => simp [heq]
  · next s' heq => simp [heq]

theorem insert_fillsFirst (s : Hy2Clients) (call : Nat) : s.FillsFirst (.insert call) := by
  intro key client hshares
  rw [step] at hshares
  split at hshares
  · next key' own hcall =>
    dsimp only at hshares
    split at hshares
    · simp at hshares
    · next hfull =>
      split at hshares
      · rw [List.mem_singleton] at hshares
        cases hshares
        exact Nat.not_lt.mp hfull
      · simp at hshares
  · simp at hshares

theorem fillsFirst_iff (s : Hy2Clients) (event : Hy2Event) : s.FillsFirst event ↔ s.EmptyOrFull event := by
  cases event with
  | getOrConnect key =>
    constructor
    · intro hfills
      by_cases hsize : s.size key = 0
      · exact .inl hsize
      · obtain ⟨client,hshares⟩ := (getOrConnect_shares s key key).mpr ⟨rfl,hsize⟩
        exact .inr (hfills key client hshares)
    · intro hsize key' client hshares
      obtain ⟨rfl,hne⟩ := (getOrConnect_shares s key key').mp ⟨client,hshares⟩
      exact hsize.resolve_left hne
  | insert call => exact iff_of_true (insert_fillsFirst s call) trivial
  | removeCached key => exact iff_of_true (fun _ _ h => absurd h List.not_mem_nil) trivial

theorem run_fillsFirst_iff (events : List Hy2Event) :
    Meets step FillsFirst new events ↔ Meets step EmptyOrFull new events :=
  meets_congr (I := fun _ => True) (fun _ _ h => h) (fun s event _ => fillsFirst_iff s event) trivial events

end Hy2Clients

end AtlasKernel.Adapter
