import VpnClient.Lib.Bits
import VpnClient.Lib.Bytes
import VpnClient.Lib.TreeSet
import VpnClient.Lib.Dyadic
import VpnClient.Android.IPRange
import VpnClient.Android.RangeAlgebra
import VpnClient.Android.IPRangeSet
import VpnClient.Android.RangeSetInvariant
import VpnClient.Android.Prefix
import VpnClient.Android.Subnets
import VpnClient.Android.RangeSetSubnets
import VpnClient.Android.SubnetsMinimal
import VpnClient.Lib.ReplayWindow
import VpnClient.Lib.ByteReader
import VpnClient.Ipsec.EspContext
import VpnClient.Ipsec.IpPacket
import VpnClient.Lib.InternetChecksum
import VpnClient.Utils.Chunk
import VpnClient.Ipsec.IpPacketData
import VpnClient.Ipsec.EspPacket
import VpnClient.Lib.LinkedList
import VpnClient.Ipsec.TrafficSelector
import VpnClient.Ipsec.Netbits
import VpnClient.Ipsec.Subset
import VpnClient.Ipsec.Policy
import VpnClient.Ipsec.Sa
import VpnClient.Ipsec.Processor
import VpnClient.Ipsec.PolicyMgr
import VpnClient.Ipsec.SaMgr
import VpnClient.Lib.Run
import VpnClient.Ipsec.Expiry
import VpnClient.Lib.SipHash
import VpnClient.Identity.Asn1
import VpnClient.Utils.Text
import VpnClient.Identity.Oid
import VpnClient.Identity.Identification
import VpnClient.Identity.DnMatch
import VpnClient.Identity.RangeMatch
import VpnClient.Lib.OrderedMap
import VpnClient.Settings.Writer
import VpnClient.Android.DnsProxy
import VpnClient.Config.ChildCfg
import VpnClient.Lib.Memory
import VpnClient.Collections.Array
import VpnClient.Bio.Writer
import VpnClient.Bio.Reader
import VpnClient.Utils.Codec
import VpnClient.Utils.Decimal
import VpnClient.Lib.Calendar
import VpnClient.Identity.Asn1Time
import VpnClient.Identity.OidNames
import VpnClient.Identity.DnText
import VpnClient.Lib.Probe
import VpnClient.Collections.Hashtable
