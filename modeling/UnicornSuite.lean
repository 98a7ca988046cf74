import UnicornSuite.ArchieArdp
import UnicornSuite.ArchieAttribution
import UnicornSuite.ArchieCid
import UnicornSuite.ArchieReassembly
import UnicornSuite.ArpaFraming
import UnicornSuite.AudioDecode
import UnicornSuite.AudioIsolation
import UnicornSuite.CdfDecode
import UnicornSuite.CdfSound
import UnicornSuite.Cuseeme
import UnicornSuite.CuseemeLoss
import UnicornSuite.CuseemeOpen
import UnicornSuite.CuseemeVideo
import UnicornSuite.FtpFetch
import UnicornSuite.FtpFraming
import UnicornSuite.GopherHistory
import UnicornSuite.GopherIntegrity
import UnicornSuite.GopherMenu
import UnicornSuite.GopherReplay
import UnicornSuite.GopherUndot
import UnicornSuite.GopherUrl
import UnicornSuite.GwbKeys
import UnicornSuite.GwbMemory
import UnicornSuite.GwbNames
import UnicornSuite.GwbSandbox
import UnicornSuite.GwbScroll
import UnicornSuite.HttpComplete
import UnicornSuite.IrcLines
import UnicornSuite.IrcSession
import UnicornSuite.LibBlocks
import UnicornSuite.LibCInt
import UnicornSuite.LibChain
import UnicornSuite.LibDelivery
import UnicornSuite.LibEscapes
import UnicornSuite.LibFirsts
import UnicornSuite.LibGrid
import UnicornSuite.LibHistory
import UnicornSuite.LibInPlace
import UnicornSuite.LibLines
import UnicornSuite.LibNesting
import UnicornSuite.LibOccurrence
import UnicornSuite.LibParagraph
import UnicornSuite.LibPath
import UnicornSuite.LibReferences
import UnicornSuite.LibRounds
import UnicornSuite.LibRun
import UnicornSuite.LibSemver
import UnicornSuite.LibShares
import UnicornSuite.LibText
import UnicornSuite.LibTrail
import UnicornSuite.LineRaster
import UnicornSuite.MinitelDecode
import UnicornSuite.MinitelDelimiter
import UnicornSuite.MinitelExcursion
import UnicornSuite.MinitelInvariant
import UnicornSuite.MinitelRepeat
import UnicornSuite.MinitelResync
import UnicornSuite.MinitelRow0
import UnicornSuite.MinitelRun
import UnicornSuite.MinitelScreen
import UnicornSuite.MinitelTransparency
import UnicornSuite.MinitelZones
import UnicornSuite.NabuBridge
import UnicornSuite.NabuClock
import UnicornSuite.NabuExclusive
import UnicornSuite.NabuRelay
import UnicornSuite.NabuTime
import UnicornSuite.NaplpsAbandon
import UnicornSuite.NaplpsCalls
import UnicornSuite.NaplpsColumns
import UnicornSuite.NaplpsCoords
import UnicornSuite.NaplpsDecode
import UnicornSuite.NaplpsDrift
import UnicornSuite.NaplpsEol
import UnicornSuite.NaplpsField
import UnicornSuite.NaplpsFont
import UnicornSuite.NaplpsInvariant
import UnicornSuite.NaplpsMode0
import UnicornSuite.NaplpsOperands
import UnicornSuite.NaplpsPadding
import UnicornSuite.NaplpsPalette
import UnicornSuite.NaplpsPdi
import UnicornSuite.NaplpsRange
import UnicornSuite.NaplpsSegmentation
import UnicornSuite.NaplpsSkipping
import UnicornSuite.NaplpsState
import UnicornSuite.NaplpsSurface
import UnicornSuite.NaplpsText
import UnicornSuite.NaplpsWinding
import UnicornSuite.NewsCache
import UnicornSuite.NewsSound
import UnicornSuite.RadioDemux
import UnicornSuite.RadioEngine
import UnicornSuite.RadioRing
import UnicornSuite.RadioStartup
import UnicornSuite.RadioStream
import UnicornSuite.RipActivate
import UnicornSuite.RipContinuation
import UnicornSuite.RipEga
import UnicornSuite.RipFeedback
import UnicornSuite.RipHandover
import UnicornSuite.RipParser
import UnicornSuite.RipPress
import UnicornSuite.RipSegments
import UnicornSuite.RipSense
import UnicornSuite.RipSieve
import UnicornSuite.RipTakeover
import UnicornSuite.RipText
import UnicornSuite.RipViewport
import UnicornSuite.RipXor
import UnicornSuite.TelnetModes
import UnicornSuite.TelnetTransparency
import UnicornSuite.UpdateDocument
import UnicornSuite.UpdateHost
import UnicornSuite.UpdateLookup
import UnicornSuite.UpdateManifest
import UnicornSuite.UpdateModes
import UnicornSuite.UpdateOrder
import UnicornSuite.UpdatePipeline
import UnicornSuite.UpdateSafety
import UnicornSuite.UpdateScan
import UnicornSuite.UpdateVersion
import UnicornSuite.VtExtract
import UnicornSuite.VtResize
import UnicornSuite.VtScrollback
import UnicornSuite.VtSelection
import UnicornSuite.VtTerm
import UnicornSuite.VtTermSafety
import UnicornSuite.WavParser
import UnicornSuite.WebAnim
import UnicornSuite.WebBlocks
import UnicornSuite.WebColumns
import UnicornSuite.WebDocument
import UnicornSuite.WebFit
import UnicornSuite.WebHistory
import UnicornSuite.WebHitTest
import UnicornSuite.WebHtml
import UnicornSuite.WebIntrinsic
import UnicornSuite.WebLines
import UnicornSuite.WebMeasure
import UnicornSuite.WebMinitel
import UnicornSuite.WebMinitelSessions
import UnicornSuite.WebPacking
import UnicornSuite.WebPages
import UnicornSuite.WebPasses
import UnicornSuite.WebPieces
import UnicornSuite.WebPlacement
import UnicornSuite.WebReading
import UnicornSuite.WebRender
import UnicornSuite.WebScopes
import UnicornSuite.WebStyle
import UnicornSuite.WebSwap
import UnicornSuite.WebText
import UnicornSuite.WebView
import UnicornSuite.WebWidths
import UnicornSuite.ZmodemCap
import UnicornSuite.ZmodemContent
import UnicornSuite.ZmodemFolder
import UnicornSuite.ZmodemHeader
import UnicornSuite.ZmodemName
import UnicornSuite.ZmodemRecv
import UnicornSuite.ZmodemRing
import UnicornSuite.ZmodemSanitize
import UnicornSuite.ZmodemSteps
