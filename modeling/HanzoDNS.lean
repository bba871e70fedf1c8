import HanzoDNS.File.Theorems.Delegation
import HanzoDNS.File.Theorems.Update
import HanzoDNS.Store.Theorems.Isolation
import HanzoDNS.Store.Theorems.Persist
import HanzoDNS.Serve.Theorems.Alias
import HanzoDNS.Serve.Theorems.Record
import HanzoDNS.Api.Theorems.Provenance
import HanzoDNS.Api.Theorems.Mirror
import HanzoDNS.Api.Theorems.Sync
import HanzoDNS.Api.Theorems.Address
import HanzoDNS.Api.Theorems.Oidc
import HanzoDNS.Api.Theorems.Tenants
import HanzoDNS.Cloudflare.Theorems.Sync
import HanzoDNS.Cloudflare.Theorems.Listing
import HanzoDNS.Operator.Theorems.Ownership
import HanzoDNS.Operator.Theorems.Pages
import HanzoDNS.Operator.Theorems.Lifecycle
import HanzoDNS.Push.Theorems.Delivery
import HanzoDNS.Watcher.Theorems.Zones
import HanzoDNS.Cache.Theorems.Exceptions
import HanzoDNS.Cache.Theorems.Authenticated
import HanzoDNS.Dnsserver.Theorems.Register
import HanzoDNS.Dnsserver.Theorems.Overlap
import HanzoDNS.Dnsserver.Theorems.Quic
import HanzoDNS.Transfer.Theorems.Batching
import HanzoDNS.Proxyproto.Theorems.Headers
import HanzoDNS.Forward.Theorems.Failover
import HanzoDNS.Proxy.Theorems.Stop
import HanzoDNS.Rewrite.Theorems.Undo
import HanzoDNS.Rewrite.Theorems.Options
import HanzoDNS.Rewrite.Theorems.Template
import HanzoDNS.Tsig.Theorems.Gate
import HanzoDNS.Dnssec.Theorems.Denial
import HanzoDNS.Dnssec.Theorems.Signatures
import HanzoDNS.Sign.Theorems.Resign
import HanzoDNS.Sign.Theorems.Secure
import HanzoDNS.K8sExternal.Theorems.Serials
import HanzoDNS.Transfer.Theorems.Serial
import HanzoDNS.Theorems.Names
import HanzoDNS.Plugin.Theorems.Cidr
import HanzoDNS.Dns64
import HanzoDNS.Up
import HanzoDNS.Loadbalance.Theorems.Weighted
import HanzoDNS.Loadbalance.Prefer
import HanzoDNS.Etcd.Text
import HanzoDNS.Cache.Shards
import HanzoDNS.Store.Theorems.Crash
import HanzoDNS.Kubernetes.Theorems.Parse
