import HiSysEvent.AppendParams
import HiSysEvent.AshMemUtils
import HiSysEvent.AttrValidity
import HiSysEvent.CallSiteKey
import HiSysEvent.CallbackManager
import HiSysEvent.DataSocket
import HiSysEvent.DomainMask
import HiSysEvent.EasyBounds
import HiSysEvent.EasyWriter
import HiSysEvent.EncodedParam
import HiSysEvent.EscapeToRaw
import HiSysEvent.EventDecoration
import HiSysEvent.EventSocketFactory
import HiSysEvent.EventType
import HiSysEvent.EventWroteLruCache
import HiSysEvent.Fields
import HiSysEvent.FlatObject
import HiSysEvent.HiSysEventJsonDecorator
import HiSysEvent.JsonFlattenParser
import HiSysEvent.JsonText
import HiSysEvent.LimiterRace
import HiSysEvent.LruHistory
import HiSysEvent.Manager
import HiSysEvent.NameGrammar
import HiSysEvent.NapiHiSysEventAdapter
import HiSysEvent.NapiHiSysEventUtil
import HiSysEvent.ParcelableVectorRw
import HiSysEvent.RateBound
import HiSysEvent.RawDataCopies
import HiSysEvent.RawDataMemory
import HiSysEvent.RawDataRuns
import HiSysEvent.RecordC
import HiSysEvent.RecordConvertor
import HiSysEvent.RetryQueue
import HiSysEvent.ReturnCode
import HiSysEvent.RustListener
import HiSysEvent.RustMacros
import HiSysEvent.RustWrapper
import HiSysEvent.ScriptRecord
import HiSysEvent.ScriptWrite
import HiSysEvent.SiteRates
import HiSysEvent.StringFilter
import HiSysEvent.VarintCode
import HiSysEvent.WatcherRegistry
import HiSysEvent.While
import HiSysEvent.Wire
import HiSysEvent.WriteSteps
