import IoImap.Client.AppendStream
import IoImap.Codec.CommandEncoder
import IoImap.Discipline.Composites
import IoImap.Rfc2177.IdleEvents
import IoImap.Rfc2177.IdleOctets
import IoImap.Rfc3501.AppendHandshake
import IoImap.Rfc3501.AppendVariants
import IoImap.Rfc3501.BodyDelivery
import IoImap.Rfc3501.CopyuidGrammar
import IoImap.Sasl.CapabilityOrder
import IoImap.Rfc3501.FetchFirst
import IoImap.Rfc3501.LineItems
import IoImap.Rfc3501.Logout
import IoImap.Watch.EncodedNames
import IoImap.Rfc3501.MailboxWire
import IoImap.Rfc3501.ParseUid
import IoImap.Rfc3501.ScannedLines
import IoImap.Rfc3501.RawTags
import IoImap.Rfc3501.ReadAhead
import IoImap.Rfc6851.Move
import IoImap.Rfc5256.SortFallback
import IoImap.Rfc5256.SortOrder
import IoImap.Sasl.Success
import IoImap.Send.Completion
import IoImap.Send.Conservation
import IoImap.Send.Literal
import IoImap.Send.Response
import IoImap.Session.Opening
import IoImap.Session.Secrecy
import IoImap.Watch.Agreement
import IoImap.Watch.MissingFlags
import IoImap.Watch.UidValidity
import IoImap.Watch.Vanished
import IoImap.Watch.IdleBatches
import IoImap.Rfc2177.IdleDiscipline
import IoImap.Rfc2177.IdleEnd
import IoImap.Watch.Wakeups
import IoImap.Watch.Skips
import IoImap.Client.Bodies
import IoImap.Client.Commands
import IoImap.Watch.WindDown
import IoImap.Client.Connected
import IoImap.Client.Returns
