import Sandbox.Api.Defaults
import Sandbox.Api.Invitations
import Sandbox.Api.Managers
import Sandbox.Api.Masking
import Sandbox.Api.Overrides
import Sandbox.Api.Removal
import Sandbox.Api.Tenants
import Sandbox.Auth.ClientAuth
import Sandbox.Auth.CognitoTokens
import Sandbox.Auth.FamilyIndex
import Sandbox.Auth.GracePeriod
import Sandbox.Auth.Guesses
import Sandbox.Auth.Linking
import Sandbox.Auth.OneShot
import Sandbox.Auth.PendingLogin
import Sandbox.Auth.Portal
import Sandbox.Auth.Redirects
import Sandbox.Auth.Revocation
import Sandbox.Auth.SessionRecords
import Sandbox.Auth.SessionSteps
import Sandbox.Auth.SetupSecret
import Sandbox.Encoding.Base64
import Sandbox.Encoding.Percent
import Sandbox.Shared.Buffer
import Sandbox.Shared.JwksRefresh
import Sandbox.Shared.RateLimit
import Sandbox.Shared.Totp
import Sandbox.Stores.Agreement
import Sandbox.Tokens.Substitution
import Sandbox.Web.Backchannel
import Sandbox.Web.ClientResolvers
import Sandbox.Web.Confinement
import Sandbox.Web.SingleUse
import Sandbox.Auth.ListedSessions
import Sandbox.Auth.TokenRevocations
import Sandbox.Auth.AfterRemoval
import Sandbox.Auth.SessionEnd
import Sandbox.Auth.CodeOrigins
import Sandbox.Interleave.Served
import Sandbox.Web.Logins
import Sandbox.Web.Routing
import Sandbox.Web.OneSession
import Sandbox.Web.Redirects
import Sandbox.Joint.Login
import Sandbox.Web.SessionIndex
import Sandbox.Joint.Logout
