import Persea.ProxyDisconnect
import Persea.ProxyFraming
import Persea.ProxyTransfers
import Persea.OriginCheck
import Persea.AuthTicket
import Persea.SessionGauge
import Persea.SessionViewerCap
import Persea.SessionViews
import Persea.SessionWindow
import Persea.GuacamoleRoundTrip
import Persea.CreateReach
import Persea.MfaSafety
import Persea.OidcFlow
import Persea.VdiContainer
import Persea.RecordingCycle
import Persea.PairingFlow
import Persea.SettingsCache
import Persea.AuditWindow
import Persea.AuditPool
import Persea.MfaRace
import Persea.CsvRows
import Persea.AddressBookSearch
import Persea.LdapRevocation
import Persea.LdapRotation
import Persea.LdapFilter
import Persea.GuacdHandshake
import Persea.SamlConformance
import Persea.Crypto
import Persea.ConfigStorage
import Persea.AddressBookDescend
import Persea.VaultCredentials
import Persea.RbacRoles
import Persea.VaultFolders
import Persea.VaultMigrate
import Persea.DbMigrateEntries
import Persea.AuthClientIp
import Persea.RadiusPacket
import Persea.Slugify
import Persea.SettingsMerge
