import PluginsDatastore.Calls.Program
import PluginsDatastore.Calls.Trace
import PluginsDatastore.Calls.KeyedStore
import PluginsDatastore.Calls.Pool
import PluginsDatastore.Calls.Interleaving
import PluginsDatastore.Calls.Iteration
import PluginsDatastore.Words.Paths
import PluginsDatastore.Words.Json
import PluginsDatastore.Go.Printf
import PluginsDatastore.Go.Verbatim
import PluginsDatastore.Appengine.Key
import PluginsDatastore.Appengine.Query
import PluginsDatastore.Go.Http
import PluginsDatastore.Go.Json
import PluginsDatastore.Go.Utf8
import PluginsDatastore.Go.Scanner
import PluginsDatastore.Go.Remaining
import PluginsDatastore.Go.Lexemes
import PluginsDatastore.Go.CheckValid
import PluginsDatastore.Go.SyntaxErrors
import PluginsDatastore.Go.Unquote
import PluginsDatastore.Go.Meaning
import PluginsDatastore.Go.Decode
import PluginsDatastore.Go.Denotation
import PluginsDatastore.Go.Decoding
import PluginsDatastore.Go.Encoded
import PluginsDatastore.Appengine.Iterator
import PluginsDatastore.Appengine.Datastore
import PluginsDatastore.Appengine.Service
import PluginsDatastore.Appengine.InKeyOrder
import PluginsDatastore.Appengine.Reference
import PluginsDatastore.Appengine.Rpc
import PluginsDatastore.Appengine.Conforming
import PluginsDatastore.Appengine.Iterating
import PluginsDatastore.Appengine.ListCursor
import PluginsDatastore.Appengine.QueryStub
import PluginsDatastore.Appengine.Records
import PluginsDatastore.Appengine.Windowed
import PluginsDatastore.Appengine.Protocol
import PluginsDatastore.DataStore
import PluginsDatastore.DataStore.Programs
import PluginsDatastore.DataStore.Outcomes
import PluginsDatastore.DataStore.Ownership
import PluginsDatastore.DataStore.Evaluation
import PluginsDatastore.DataStore.Contents
import PluginsDatastore.DataStore.Refinement
import PluginsDatastore.DataStore.Agreement
import PluginsDatastore.DataStore.StoreAnswer
import PluginsDatastore.DataStore.Uniqueness
import PluginsDatastore.DataStore.Secrecy
import PluginsDatastore.DataStore.Overwrite
import PluginsDatastore.DataStore.Removal
import PluginsDatastore.DataStore.StaleCount
import PluginsDatastore.DataStore.Independence
import PluginsDatastore.DataStore.Flight
import PluginsDatastore.DataStore.FailedIteration
import PluginsDatastore.DataStore.AllOrNothing
import PluginsDatastore.DataStore.Framing
import PluginsDatastore.DataStore.Interleaved
import PluginsDatastore.DataStore.Moments
import PluginsDatastore.DataStore.Retries
import PluginsDatastore.DataStore.Responses
