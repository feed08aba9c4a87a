import DocClient.Session.Basic

/-!
Dialing: what the caller asks of the connections, and the session that an address gives.
-/
namespace DocClient

structure ConnectionOptions where
  connectMillis : Option Nat := none
  selectionMillis : Option Nat := none
  appName : Option String := none
  maxPoolSize : Option UInt32 := none
  minPoolSize : Option UInt32 := none
  direct : Option Bool := none
  deriving DecidableEq

structure DialOptions where
  timeoutMillis : Option Nat := none
  appName : Option String := none
  maxPoolSize : Option UInt32 := none
  minPoolSize : Option UInt32 := none
  direct : Option Bool := none
  deriving DecidableEq

namespace DialOptions

/-- What is set replaces what held before; the timeout goes for connecting and for choosing a server. -/
def apply (o : DialOptions) (c : ConnectionOptions) : ConnectionOptions where
  connectMillis := o.timeoutMillis.or c.connectMillis
  selectionMillis := o.timeoutMillis.or c.selectionMillis
  appName := o.appName.or c.appName
  maxPoolSize := o.maxPoolSize.or c.maxPoolSize
  minPoolSize := o.minPoolSize.or c.minPoolSize
  direct := o.direct.or c.direct

end DialOptions

namespace Session

/--
The session of an address, unless the address is none. A direct connection goes to one host only, and a
pool has room for one connection at least.
-/
def dial (address : String) (options : DialOptions) (rounds : Nat) : Except Error Session :=
  match Address.hosts? address.toList with
  | none => .error (.transport .invalidArgument)
  | some hosts =>
    if options.direct = some true && 1 < hosts.length || options.maxPoolSize = some 0 then
      .error (.transport .invalidArgument)
    else .ok (.dialed address rounds)

end Session
end DocClient
