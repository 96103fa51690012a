import Mobilink.Core.Message
import Mobilink.Core.Quic
import Mobilink.Library.IterationOrder
import Mobilink.Library.Mutex

/-! The map of live tunnels, keyed by session, and the session options that are read off it. -/
namespace Mobilink.Server
open Mobilink.Core

structure TunnelEntry where
  connection : Connection
  noEruda : Bool
  auth : AuthMode
  deriving DecidableEq

structure TunnelMap where
  inner : Mutex (Finmap fun _ : SessionId => TunnelEntry)

namespace TunnelMap

/-- An order in which the entries of the hash map may be listed. -/
abbrev Order := AList fun _ : SessionId => TunnelEntry

def new : TunnelMap := ⟨.new ∅⟩

/-- In every operation `none` is the panic of `expect("tunnel map lock")`. -/
def insert (t : TunnelMap) (id : SessionId) (connection : Connection) (noEruda : Bool)
    (auth : AuthMode) : Option TunnelMap :=
  t.inner.lock.map fun inner => ⟨t.inner.store (inner.insert id ⟨connection, noEruda, auth⟩)⟩

def remove (t : TunnelMap) (id : SessionId) : Option TunnelMap :=
  t.inner.lock.map fun inner => ⟨t.inner.store (inner.erase id)⟩

def connection (t : TunnelMap) (id : SessionId) : Option (Option Connection) :=
  t.inner.lock.map fun inner => (inner.lookup id).map TunnelEntry.connection

/-- `values().next()` depends on the order in which the hash map lists its entries. -/
def erudaDisabled (t : TunnelMap) (order : Order) : Option Bool :=
  t.inner.lock.map fun _ => ((IterationOrder.first order).map TunnelEntry.noEruda).getD false

def authMode (t : TunnelMap) (order : Order) : Option AuthMode :=
  t.inner.lock.map fun _ => ((IterationOrder.first order).map TunnelEntry.auth).getD default

variable {t : TunnelMap}

theorem insert_eq (h : t.inner.poisoned = false) (id : SessionId) (c : Connection) (n : Bool)
    (a : AuthMode) :
    t.insert id c n a = some ⟨t.inner.store (t.inner.value.insert id ⟨c, n, a⟩)⟩ := by
  unfold insert
  rw [Mutex.lock_eq_some h, Option.map_some]

theorem remove_eq (h : t.inner.poisoned = false) (id : SessionId) :
    t.remove id = some ⟨t.inner.store (t.inner.value.erase id)⟩ := by
  unfold remove
  rw [Mutex.lock_eq_some h, Option.map_some]

theorem connection_eq (h : t.inner.poisoned = false) (id : SessionId) :
    t.connection id = some ((t.inner.value.lookup id).map TunnelEntry.connection) := by
  unfold connection
  rw [Mutex.lock_eq_some h, Option.map_some]

theorem erudaDisabled_eq (h : t.inner.poisoned = false) (order : Order) :
    t.erudaDisabled order =
      some (((IterationOrder.first order).map TunnelEntry.noEruda).getD false) := by
  unfold erudaDisabled
  rw [Mutex.lock_eq_some h, Option.map_some]

theorem authMode_eq (h : t.inner.poisoned = false) (order : Order) :
    t.authMode order = some (((IterationOrder.first order).map TunnelEntry.auth).getD default) := by
  unfold authMode
  rw [Mutex.lock_eq_some h, Option.map_some]

end TunnelMap
end Mobilink.Server
