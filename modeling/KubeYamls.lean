import KubeYamls.Dex.ResponseTypes
import KubeYamls.Dex.Binding
import KubeYamls.Dex.PublicKeys
import KubeYamls.Dex.Subject
import KubeYamls.Store.Collectors
import KubeYamls.Store.EtcdJson
import KubeYamls.Store.Migrations
import KubeYamls.Store.Missing
import KubeYamls.Store.OfflineSessions
import KubeYamls.Store.Postgres
import KubeYamls.Store.Static
import KubeYamls.Store.Updates
import KubeYamls.Dex.Approval
import KubeYamls.Dex.RejectedRefresh
import KubeYamls.Dex.FailedLogin
import KubeYamls.Dex.Release
import KubeYamls.Dex.OutOfBand
import KubeYamls.Dex.Probing
import KubeYamls.Dex.RawIDs
import KubeYamls.Saml.Acceptance
import KubeYamls.Connectors.Bitbucket
import KubeYamls.Connectors.Membership
import KubeYamls.Nginx.Isolation
import KubeYamls.Nginx.ConfigMaps
import KubeYamls.Nginx.SecretUsers
import KubeYamls.Nginx.SecretSearch
import KubeYamls.Nginx.Tombstones
import KubeYamls.Nginx.FailedUpdates
import KubeYamls.Nginx.JwtAuth
import KubeYamls.Nginx.Endpoints
import KubeYamls.Nginx.Annotations
import KubeYamls.Nginx.PlusApi
import KubeYamls.Nginx.Status
import KubeYamls.Nginx.Declarations
import KubeYamls.Nginx.Extensions
import KubeYamls.Nginx.ServicePorts
import KubeYamls.Jenkins.Installer
import KubeYamls.Jenkins.Retry
import KubeYamls.Jenkins.VersionOrder
