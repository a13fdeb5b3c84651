import KcpEcho.Ikcp.Schedule
import KcpEcho.Network.Handshake
import KcpEcho.Network.Recovery
import KcpEcho.Network.Storm
import KcpEcho.Process.Routing
import KcpEcho.Session.Buffers
import KcpEcho.Session.Completion
import KcpEcho.Session.Echo
import KcpEcho.Session.Emission
import KcpEcho.Session.Memory
import KcpEcho.Session.Pacing
import KcpEcho.Session.Window
import KcpEcho.Table.ClientTable
import KcpEcho.Table.ServerEcho
import KcpEcho.Table.ServerTable
import KcpEcho.Table.Teardown
import KcpEcho.Table.Timeout
