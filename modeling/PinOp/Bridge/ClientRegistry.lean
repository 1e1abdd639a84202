import PinOp.Lib.OrderedMap
import PinOp.Protocol.Messages

/-!
# The client registry

The authenticated connections of the bridge, in the order they were added. A client is
filed under its own id, so that what `get` answers is the client that was asked for.
-/

namespace PinOp.Bridge

open PinOp.Lib PinOp.Protocol

structure RegisteredClient where
  id : String
  source : ClientSource
  sessionId : String
  capabilities : List ProtocolCapability
  deriving DecidableEq, Repr

structure ClientRegistry where
  clients : OrderedMap String RegisteredClient
  filed : ∀ id client, clients.get? id = some client → client.id = id

namespace ClientRegistry

def empty : ClientRegistry := ⟨∅, fun _ _ h => by cases h⟩

def get (registry : ClientRegistry) (id : String) : Option RegisteredClient :=
  registry.clients.get? id

/-- The entry already has the id it was given. -/
def add (registry : ClientRegistry) (entry : RegisteredClient) : ClientRegistry where
  clients := registry.clients.set entry.id entry
  filed := by
    intro id client h
    rw [OrderedMap.get?_set] at h
    split at h
    · next e => cases h; exact e.symm
    · exact registry.filed id client h

def remove (registry : ClientRegistry) (id : String) : ClientRegistry where
  clients := registry.clients.delete id
  filed := by
    intro id' client h
    rw [OrderedMap.get?_delete] at h
    split at h
    · cases h
    · exact registry.filed id' client h

def all (registry : ClientRegistry) : List RegisteredClient :=
  registry.clients.entries.map Prod.snd

def findBySessionAndRole (registry : ClientRegistry) (sessionId : String) (role : ClientRole) :
    List RegisteredClient :=
  registry.all.filter fun client => client.sessionId = sessionId ∧ client.source.role = role

theorem id_of_get {registry : ClientRegistry} {id : String} {client : RegisteredClient}
    (h : registry.get id = some client) : client.id = id :=
  registry.filed id client h

end ClientRegistry

def supportsCapability (client : RegisteredClient) (capability : ProtocolCapability) : Bool :=
  client.capabilities.contains capability

end PinOp.Bridge
