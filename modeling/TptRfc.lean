import TptRfc.Bfd.Authentication
import TptRfc.Bfd.Handshake
import TptRfc.Bgp.BestPath
import TptRfc.Bgp.Fsm
import TptRfc.Bgp.Masking
import TptRfc.Bgp.Relay
import TptRfc.Cbor.Bignum
import TptRfc.Cbor.MapOrder
import TptRfc.Cbor.Preferred
import TptRfc.Cbor.Strict
import TptRfc.Dhcp.Leases
import TptRfc.Doh.Cache
import TptRfc.Doh.Compression
import TptRfc.Doh.Query
import TptRfc.Dtls.Authentication
import TptRfc.Dtls.Datagram
import TptRfc.Ed25519.Context
import TptRfc.HttpCache.Age
import TptRfc.HttpCache.Dates
import TptRfc.HttpCache.Merge
import TptRfc.HttpSig.Policy
import TptRfc.Imap.Sets
import TptRfc.Ipsec.Handshake
import TptRfc.Kerberos.Cts
import TptRfc.Kerberos.Kdc
import TptRfc.Netconf.Datastore
import TptRfc.Netconf.RoundTrip
import TptRfc.Netconf.XmlTotal
import TptRfc.Ospf.Database
import TptRfc.Ospf.RoundTripV3
import TptRfc.Ospf.SpfCorrect
import TptRfc.PrivacyPass.Issuance
import TptRfc.Radius.Exchange
import TptRfc.Rtp.Statistics
import TptRfc.Sieve.Glob
import TptRfc.Snmp.Requests
import TptRfc.Snmp.Signing
import TptRfc.Ssh.Channel
import TptRfc.Ssh.Session
import TptRfc.X509.PathLength
import TptRfc.X509.Revocation
import TptRfc.X509.Rsa
import TptRfc.Snmp.Timeliness
