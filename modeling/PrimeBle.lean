import PrimeBle.Library.IntelHex
import PrimeBle.Library.PostcardPrefix
import PrimeBle.HostProtocol.Encode
import PrimeBle.Firmware.DeviceName
import PrimeBle.Firmware.Channels
import PrimeBle.Firmware.Reception
import PrimeBle.Firmware.Settings
import PrimeBle.Firmware.Switch
import PrimeBle.Update.Confinement
import PrimeBle.Update.Retransmission
import PrimeBle.Update.Acknowledgement
import PrimeBle.Update.SharedPage
import PrimeBle.Secret.Provisioning
import PrimeBle.Secret.DeveloperBoot
import PrimeBle.Secret.SealWord
import PrimeBle.Secret.PowerLoss
import PrimeBle.Secret.Authentication
import PrimeBle.Spi.Framing
import PrimeBle.Spi.Lockstep
import PrimeBle.Spi.Oversized
import PrimeBle.Analyzer.Decode
import PrimeBle.Analyzer.Agreement
import PrimeBle.Analyzer.Transactions
import PrimeBle.Analyzer.Idle
import PrimeBle.Xtask.Merge
import PrimeBle.Xtask.MemoryMap
import PrimeBle.Xtask.Layout
import PrimeBle.Xtask.Stability
import PrimeBle.Xtask.Patches
import PrimeBle.Secret.Confidentiality
import PrimeBle.Chip.Protection
import PrimeBle.Chip.SecureBoot
import PrimeBle.Library.Crc32Bursts
import PrimeBle.Host.Control
import PrimeBle.Host.Update
import PrimeBle.Analyzer.Session
import PrimeBle.Xtask.Package
import PrimeBle.Host.Factory
import PrimeBle.Library.StableSort
import PrimeBle.Xtask.Stages
import PrimeBle.HostProtocol.Canonical
import PrimeBle.Firmware.Settled
import PrimeBle.Library.Mailbox
import PrimeBle.Firmware.Mailbox
import PrimeBle.Spi.Mailbox
import PrimeBle.Host.Recovery
import PrimeBle.Spi.Queries
import PrimeBle.Firmware.Sessions
