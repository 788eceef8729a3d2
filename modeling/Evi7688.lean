import Evi7688.Azurectl.Crc16
import Evi7688.Azurectl.Dongleport
import Evi7688.Azurectl.Main
import Evi7688.Azurectl.MeterBus
import Evi7688.Azurectl.ModbusRtu
import Evi7688.Azurectl.PingSettings
import Evi7688.Azurectl.PortMask
import Evi7688.Azurectl.ReadLoop
import Evi7688.Azurectl.SetCommand
import Evi7688.Azurectl.Uci
import Evi7688.Azurectl.UsbDongle
import Evi7688.Azureiotd.CertificateHistory
import Evi7688.Azureiotd.CertificateRecovery
import Evi7688.Azureiotd.ConformingBroker
import Evi7688.Azureiotd.Conn
import Evi7688.Azureiotd.ConnectPacket
import Evi7688.Azureiotd.DpsCertificate
import Evi7688.Azureiotd.FileStem
import Evi7688.Azureiotd.HostForms
import Evi7688.Azureiotd.Main
import Evi7688.Azureiotd.PacketBuffers
import Evi7688.Azureiotd.PublishPacket
import Evi7688.Azureiotd.Resources
import Evi7688.Azureiotd.SafeStr
import Evi7688.Azureiotd.SasComplete
import Evi7688.Azureiotd.SasToken
import Evi7688.Azureiotd.SasVerifier
import Evi7688.Azureiotd.SerialNumber
import Evi7688.Azureiotd.Session
import Evi7688.Azureiotd.UrlEncode
import Evi7688.Azureiotd.WireOrder
import Evi7688.Lcdclient.ClientRuns
import Evi7688.Lcdclient.EviLcd
import Evi7688.Lcdclient.PutText
import Evi7688.Lcdclient.SharedSocket
import Evi7688.Lcdclient.TwoWriters
import Evi7688.Lcdsvc.Connections
import Evi7688.Lcdsvc.Display
import Evi7688.Lcdsvc.Grammar
import Evi7688.Lcdsvc.LcdHw
import Evi7688.Lcdsvc.Lcdctl
import Evi7688.Lcdsvc.ManyClients
import Evi7688.Lcdsvc.OpenHandles
import Evi7688.Lcdsvc.PanelCursor
import Evi7688.Lcdsvc.Segmentation
import Evi7688.Lcdsvc.Server
import Evi7688.Lcdsvc.Service
import Evi7688.Lcdsvc.SingleInstance
import Evi7688.Lcdsvc.WriteFailures
import Evi7688.Libevi.Caption
import Evi7688.Libevi.ChargeRouter
import Evi7688.Libevi.Hal
import Evi7688.Libevi.HalTrace
import Evi7688.Libevi.InfoRows
import Evi7688.Libevi.InitLcm
import Evi7688.Libevi.InterfaceWidth
import Evi7688.Libevi.PanelContents
import Evi7688.Libevi.Screens
import Evi7688.Libevi.Suppression
import Evi7688.Libevi.TakeOver
import Evi7688.Libevi.Threads
import Evi7688.Library.BoundedWriter
import Evi7688.Library.Bytes
import Evi7688.Library.CharacterPanel
import Evi7688.Library.CharacterPicture
import Evi7688.Library.CrashProgram
import Evi7688.Library.Delimited
import Evi7688.Library.FallibleOperations
import Evi7688.Library.JsonText
import Evi7688.Library.Ledger
import Evi7688.Library.Modbus
import Evi7688.Library.Monitor
import Evi7688.Library.Mqtt
import Evi7688.Library.NamedFields
import Evi7688.Library.Numerals
import Evi7688.Library.PercentCoding
import Evi7688.Library.Pieces
import Evi7688.Library.PyText
import Evi7688.Library.SharedCell
import Evi7688.Library.SharedCursor
import Evi7688.Library.ShellWords
import Evi7688.Library.ShiftRegister
import Evi7688.Python.Backends
import Evi7688.Python.DisplayCaptionFunc
import Evi7688.Python.SendJson
import Evi7688.Python.ShimRuns
import Evi7688.Python.SubscribeC2d
import Evi7688.Python2c.TickLoop
