import EthereumJs.Basic
import EthereumJs.Rlp
import EthereumJs.JsValue
import EthereumJs.EthProtocol
import EthereumJs.Requests
import EthereumJs.Responses
import EthereumJs.Eth
import EthereumJs.Handshake
import EthereumJs.Exchange
import EthereumJs.Dispatch
import EthereumJs.Link
import EthereumJs.ForkId
import EthereumJs.Failure
import EthereumJs.Miner.Model
import EthereumJs.Miner.Interrupt
import EthereumJs.Miner.Subscriptions
import EthereumJs.Miner.Timers
import EthereumJs.Miner.Flag
import EthereumJs.Miner.Complete
import EthereumJs.Miner.Exclusion
